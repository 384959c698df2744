import EspTree.File.Batches

/-!
# The bridge takes the chunks of the host

As long as a transfer goes on, each chunk that the host cuts out of the file for the present request
passes the tests of the transport and of the manager, whatever the bridge does between two batches
(`chunks_agree`).  `Agrees` is the invariant behind it: the transport knows the chunk size of the
manager, and what it still waits for is what the manager still wants.

The proof goes through the calls of the bridge one by one.  A call can do two things to `Agrees`: it
can move the manager on, after which the transport tells the host what is wanted now, or it can end
the transfer.  `Heard` is the same with a message that has not been sent yet, for the calls in which
the manager has moved on and the transport has yet to say so.

A chunk that is injected takes its number out of the set that is wanted, so that a second copy of it
is refused.  That is no failure of the host: within one request the host sends each chunk once.
-/

namespace EspTree

open Wire OtaManager

/-! ## What the manager keeps during a transfer -/

namespace OtaManager.Manager

/-- A busy manager has been busy before, with the same file and the same chunks. -/
structure Kept (m m' : Manager) : Prop where
  busy : m.state ≠ .idle
  announcing : m'.state = .announcing ↔ m.state = .announcing
  fileSize : m'.fileSize = m.fileSize
  chunkSize : m'.negotiatedChunkSize = m.negotiatedChunkSize
  geometry : m'.tracker.geometry = m.tracker.geometry
  requested : m.tracker.requestedSequences ⊆ m'.tracker.requestedSequences

/-- A call that keeps the transfer or ends it. -/
structure Keeps (m m' : Manager) : Prop where
  kept (h : m'.state ≠ .idle) : Kept m m'

namespace Keeps

variable {m m' m'' : Manager}

theorem refl : Keeps m m := ⟨fun h => ⟨h, .rfl, rfl, rfl, rfl, subset_rfl⟩⟩

/-- What two calls keep of the transfer they keep together. -/
theorem trans (h : Keeps m m') (h' : Keeps m' m'') : Keeps m m'' := by
  refine ⟨fun hbusy => ?_⟩
  obtain ⟨hbusy', hann', hfile', hsize', hgeometry', hreq'⟩ := h'.kept hbusy
  obtain ⟨hbusy, hann, hfile, hsize, hgeometry, hreq⟩ := h.kept hbusy'
  exact ⟨hbusy, hann'.trans hann, hfile'.trans hfile, hsize'.trans hsize,
    hgeometry'.trans hgeometry, hreq.trans hreq'⟩

/-- A transfer that has ended has nothing to keep. -/
theorem ended (h : m'.state = .idle) : Keeps m m' := ⟨fun hbusy => absurd h hbusy⟩

/-- Only timers, counters and what has been sent have changed. -/
theorem same (hstate : m'.state = m.state) (hfile : m'.fileSize = m.fileSize)
    (hsize : m'.negotiatedChunkSize = m.negotiatedChunkSize)
    (hgeometry : m'.tracker.geometry = m.tracker.geometry)
    (hreq : m'.tracker.requestedSequences = m.tracker.requestedSequences) : Keeps m m' :=
  ⟨fun hbusy => ⟨hstate ▸ hbusy, by rw [hstate], hfile, hsize, hgeometry, hreq.ge⟩⟩

/-- The state moves on. -/
theorem moved (hbusy : m.state ≠ .idle) (hann : m.state ≠ .announcing)
    (hann' : m'.state ≠ .announcing) (hfile : m'.fileSize = m.fileSize)
    (hsize : m'.negotiatedChunkSize = m.negotiatedChunkSize)
    (hgeometry : m'.tracker.geometry = m.tracker.geometry)
    (hreq : m.tracker.requestedSequences ⊆ m'.tracker.requestedSequences) : Keeps m m' :=
  ⟨fun _ => ⟨hbusy, iff_of_false hann' hann, hfile, hsize, hgeometry, hreq⟩⟩

end Keeps

variable {π : Type} (x : Context π) (m : Manager) (p : π)

theorem markNoMemBackoff_keeps : Keeps m (m.markNoMemBackoff x) :=
  .same (by simp) (congrArg (fun c => c.offer.fileSize) (core_markNoMemBackoff x m)) (by simp)
    (by simp) (by simp)

theorem clearNoMemBackoff_keeps : Keeps m m.clearNoMemBackoff := .same rfl rfl rfl rfl rfl

theorem decayNoMemBackoff_keeps : Keeps m m.decayNoMemBackoff := by
  unfold decayNoMemBackoff
  split <;> exact .same rfl rfl rfl rfl rfl

theorem sendAnnounce_keeps : Keeps m (m.sendAnnounce x p).1 := by
  unfold sendAnnounce
  dsimp only
  split_ifs
  · exact .refl
  · exact .ended rfl
  · split
    · exact markNoMemBackoff_keeps ..
    · exact .same rfl rfl rfl rfl rfl
    · exact .ended rfl
    · exact .ended rfl

theorem sendBlastComplete_keeps : Keeps m (m.sendBlastComplete x p).1 := by
  unfold sendBlastComplete
  dsimp only
  split
  · exact markNoMemBackoff_keeps ..
  · exact .same rfl rfl rfl rfl rfl
  · exact .ended rfl
  · exact clearNoMemBackoff_keeps ..

theorem sendEnd_keeps (hbusy : m.state ≠ .idle) (hann : m.state ≠ .announcing) :
    Keeps m (m.sendEnd x p).1 := by
  unfold sendEnd
  dsimp only
  split_ifs
  · exact .refl
  · exact .ended rfl
  · split
    · exact .ended rfl
    · exact .moved hbusy hann (by simp) rfl rfl rfl subset_rfl
    · exact .ended rfl
    · exact .ended rfl

theorem sendChunk_keeps (chunk : QueuedChunk) : Keeps m (m.sendChunk x p chunk).1 := by
  unfold sendChunk
  dsimp only
  split
  · exact .ended rfl
  · split
    · exact markNoMemBackoff_keeps ..
    · refine (decayNoMemBackoff_keeps m).trans (.same rfl rfl rfl ?_ ?_) <;> dsimp only <;> split <;> rfl
    · exact decayNoMemBackoff_keeps ..

/-- A round is only filled where nothing was requested. -/
theorem pumpBlasting_keeps : Keeps m (m.pumpBlasting x) := by
  unfold pumpBlasting
  split_ifs with hheld hempty
  · exact .refl
  · exact ⟨fun hbusy => ⟨hbusy, .rfl, rfl, rfl, rfl, hempty.1 ▸ Finset.empty_subset _⟩⟩
  · exact .refl

theorem closeBlast_keeps (hb : m.state = .blasting) : Keeps m (m.closeBlast x p).1 := by
  have hkeeps := sendBlastComplete_keeps x m p
  unfold closeBlast
  dsimp only
  split_ifs with hok
  · have hstate := (sendBlastComplete_state x hok).trans hb
    exact hkeeps.trans (.moved (by simp [hstate]) (by simp [hstate]) (by simp) rfl rfl rfl subset_rfl)
  · exact hkeeps

theorem pumpQueuedChunks_keeps : Keeps m (m.pumpQueuedChunks x p).1 := by
  unfold pumpQueuedChunks
  dsimp only
  split
  · exact .refl
  rename_i hheld
  have hb : m.state = .blasting := by
    by_contra hb
    exact hheld (.inl hb)
  split
  · split_ifs
    · exact closeBlast_keeps x m p hb
    · exact .refl
  · rename_i chunk rest hp
    have hkeeps := sendChunk_keeps x m p chunk
    have hstate := sendChunk_state x (m := m) (p := p) (q := chunk)
    obtain ⟨m', p', sent, hsend⟩ : ∃ m' p' sent, m.sendChunk x p chunk = (m', p', sent) :=
      ⟨_, _, _, rfl⟩
    rw [hsend] at hkeeps hstate ⊢
    cases sent with
    | false => exact hkeeps
    | true =>
      have hpop : Keeps m' (m'.popChunk chunk.sequence rest) := .same rfl rfl rfl rfl rfl
      simp only [Bool.not_true, Bool.false_eq_true, if_false]
      split_ifs
      · exact (hkeeps.trans hpop).trans (closeBlast_keeps x _ p' ((hstate rfl).1.trans hb))
      · exact hkeeps.trans hpop

/-- A turn of the loop. -/
theorem loop_keeps : Keeps m (m.loop x p).1 := by
  unfold loop
  split_ifs
  · exact .refl
  · exact .ended rfl
  · exact .ended rfl
  · exact .refl
  · exact .ended rfl
  · unfold advance
    split
    · split_ifs
      · exact sendAnnounce_keeps ..
      · exact .refl
    · exact (pumpBlasting_keeps x m).trans (pumpQueuedChunks_keeps ..)
    · split_ifs
      · exact .ended rfl
      · exact sendBlastComplete_keeps ..
      · exact .refl
    · next hs =>
      split_ifs
      · exact sendEnd_keeps x m p (by simp [hs]) (by simp [hs])
      · exact .refl
    · exact .refl
    · exact .refl

theorem onSourceAbort_keeps (reason : UInt8) : Keeps m (m.onSourceAbort x p reason).1 := by
  unfold onSourceAbort
  split_ifs
  · exact .ended rfl
  · exact .refl

/-- The leaf has accepted the file. -/
structure Opens (m m' : Manager) : Prop where
  announcing : m.state = .announcing
  blasting : m'.state = .blasting
  fileSize : m'.fileSize = m.fileSize
  chunkSize : 0 < m'.negotiatedChunkSize
  geometry : m'.tracker.geometry.totalChunks = Geometry.divUp m'.fileSize m'.negotiatedChunkSize

/-- An `ACCEPT` opens the transfer, or leaves it as it is. -/
theorem handleAccept_keeps (ha : m.state = .announcing) (trailing : Bytes) :
    Keeps m (m.handleAccept x p trailing).1 ∨ Opens m (m.handleAccept x p trailing).1 := by
  unfold handleAccept
  dsimp only
  split_ifs with _ _ hsize
  iterate 5 exact .inl (.ended rfl)
  · exact .inr ⟨ha, rfl, rfl, Nat.pos_of_ne_zero fun h => hsize (.inl h), rfl⟩

theorem handleGapsAck_keeps (hw : m.Wants) (hs : m.state = .waitingGaps) (trailing : Bytes) :
    Keeps m (m.handleGapsAck x p trailing).1 := by
  have hbusy : m.state ≠ .idle := by simp [hs]
  have hann : m.state ≠ .announcing := by simp [hs]
  have hreq (fill : Finset Nat) : m.tracker.requestedSequences ⊆ fill := by
    rw [hw.closed (by simp [hs])]
    exact Finset.empty_subset _
  unfold handleGapsAck
  dsimp only
  split_ifs
  · exact .ended rfl
  · exact .ended rfl
  · have hend : Keeps m { m with state := .ending, controlAttemptCount := 0 } :=
      .moved hbusy hann (by simp) rfl rfl rfl subset_rfl
    exact hend.trans (sendEnd_keeps x _ p (by simp) (by simp))
  · exact .moved hbusy hann (by simp [requestIncrementChunks]) rfl rfl rfl (hreq _)
  · exact .ended rfl
  · exact .moved hbusy hann (by simp [requestIncrementChunks]) rfl rfl rfl (hreq _)
  · exact .moved hbusy hann (by simp) rfl rfl rfl (hreq _)

theorem noteActivity_keeps : Keeps m (m.noteActivity x) := .same rfl rfl rfl rfl rfl

/-- An acknowledgement keeps what the manager wants, asks for less, or opens the transfer. -/
theorem onFileAck_keeps (hw : m.Wants) (leafMac : Mac) (ackType result : UInt8) (ref : UInt32)
    (trailing : Bytes) :
    Keeps m (m.onFileAck x p leafMac ackType result ref trailing).1.1 ∨
      Opens m (m.onFileAck x p leafMac ackType result ref trailing).1.1 := by
  have hnote := noteActivity_keeps x m
  unfold onFileAck
  split_ifs
  · exact .inl .refl
  unfold dispatchFileAck
  split_ifs with _ ha _ _ hgaps hs
  · exact .inl hnote
  · exact .inl hnote
  · rw [not_not] at ha
    rcases handleAccept_keeps x (m.noteActivity x) p ha trailing with h | h
    · exact .inl (hnote.trans h)
    · exact .inr ⟨ha, h.blasting, h.fileSize, h.chunkSize, h.geometry⟩
  · exact .inl (.ended rfl)
  · exact .inl hnote
  · rw [not_not] at hs
    have hw' : (m.noteActivity x).Wants := ⟨hw.blasting, hw.closed⟩
    exact .inl (hnote.trans (handleGapsAck_keeps x _ p hw' hs trailing))
  · exact .inl hnote
  · unfold handleComplete
    split_ifs <;> exact .inl (.ended rfl)
  · exact .inl (.ended rfl)
  · exact .inl hnote

/-- A transfer that has started announces a file of the size that was asked for. -/
theorem startTransfer_busy (leafMac : Mac) (fileSize : Nat) (md5 : Octets 16) (action : UInt8)
    (remoteMax : Nat) (fileId : Octets 12) (hidle : m.state = .idle)
    (h : (m.startTransfer x p leafMac fileSize md5 action remoteMax fileId).1.state ≠ .idle) :
    (m.startTransfer x p leafMac fileSize md5 action remoteMax fileId).1.state = .announcing ∧
      (m.startTransfer x p leafMac fileSize md5 action remoteMax fileId).1.fileSize = fileSize ∧
      0 < fileSize ∧ fileSize ≤ 2 ^ 30 := by
  unfold startTransfer at h ⊢
  dsimp only at h ⊢
  split_ifs at h ⊢ with hzero hbusy hlarge hsmall
  iterate 4 exact absurd hidle h
  · have hkept := (sendAnnounce_keeps x _ p).kept h
    exact ⟨hkept.announcing.2 rfl, hkept.fileSize, Nat.pos_of_ne_zero hzero, Nat.not_lt.1 hlarge⟩

end OtaManager.Manager

namespace Host

/-! ## The invariant -/

/-- Without new messages the transport has heard nothing. -/
theorem heard_self (log : List Jobs.Entry) (t : Transport) : heard log log t = t := by
  simp [heard]

/-- The transport hears the messages one after the other. -/
theorem heard_cons {old log : List Jobs.Entry} (h : old <:+ log) (entry : Jobs.Entry) (t : Transport) :
    heard old (entry :: log) t = (heard old log t).told entry := by
  have hle := h.length_le
  have hlength : (entry :: log).length - old.length = log.length - old.length + 1 := by
    rw [List.length_cons]
    omega
  rw [heard, hlength, List.take_succ_cons, List.foldr_cons, heard]

/-- What the transport knows of the transfer of its job. -/
structure Settled (s : Jobs.State) (t : Transport) : Prop where
  opened : s.manager.state ≠ .announcing
  chunkSize : t.otaMaxChunkSize = s.manager.negotiatedChunkSize
  batch : t.otaMaxChunksPerBatch = 6
  pending : t.otaPendingSequences ⊆ s.manager.tracker.requestedSequences
  accepted : ∀ a, Jobs.Entry.accepted a ∈ s.log → a.job = s.jobCounter →
    a.maxChunkSize = s.manager.negotiatedChunkSize ∧
      a.totalChunks = s.manager.tracker.geometry.totalChunks ∧ a.maxChunksPerBatch = 6

/-- The transport goes with the bridge. -/
structure Agrees (s : Jobs.State) (t : Transport) : Prop where
  wants : s.manager.Wants
  shown : s.manager.state = .announcing → s.publicState ≠ .transferring
  jobs : ∀ a, Jobs.Entry.accepted a ∈ s.log → a.job ≤ s.jobCounter
  waiting : s.jobState = .waitingForLeaf → ∀ a, Jobs.Entry.accepted a ∈ s.log → a.job ≠ s.jobCounter
  size : s.manager.state ≠ .idle → 0 < s.manager.fileSize ∧ s.manager.fileSize ≤ 2 ^ 30
  geometry : s.manager.state ≠ .idle → s.manager.state ≠ .announcing →
    0 < s.manager.negotiatedChunkSize ∧ s.manager.tracker.geometry.totalChunks =
      Geometry.divUp s.manager.fileSize s.manager.negotiatedChunkSize
  settled : s.jobState = .transferring → s.manager.state ≠ .idle → Settled s t
  named : t.otaPendingSequences ≠ ∅ →
    ∃ job request, t.otaChunkRequestId = requestIdText job request

namespace Agrees

variable {s s' : Jobs.State} {t : Transport}

/-- Only the manager, the log and the job matter for what the transport has heard. -/
theorem congr (h : Agrees s t) (hm : s'.manager = s.manager) (hshown : s'.publicState = s.publicState)
    (hlog : s'.log = s.log) (hcounter : s'.jobCounter = s.jobCounter)
    (hjob : s'.jobState = s.jobState ∨ s'.jobState ≠ .waitingForLeaf ∧ s'.jobState ≠ .transferring) :
    Agrees s' t where
  wants := hm ▸ h.wants
  shown := by rw [hm, hshown]; exact h.shown
  jobs := by rw [hlog, hcounter]; exact h.jobs
  waiting hwaiting := by
    rw [hlog, hcounter]
    rcases hjob with hjob | hjob
    · exact h.waiting (hjob ▸ hwaiting)
    · exact absurd hwaiting hjob.1
  size := by rw [hm]; exact h.size
  geometry := by rw [hm]; exact h.geometry
  settled htransferring hbusy := by
    rcases hjob with hjob | hjob
    · obtain ⟨hopened, hsize, hbatch, hpending, haccepted⟩ :=
        h.settled (hjob ▸ htransferring) (hm ▸ hbusy)
      exact ⟨hm ▸ hopened, hm ▸ hsize, hbatch, hm ▸ hpending,
        by rw [hlog, hcounter, hm]; exact haccepted⟩
    · exact absurd htransferring hjob.2
  named := h.named

/-- A message that asks for what the manager wants leaves the transport with that. -/
theorem tell (h : Agrees s t) {message : Jobs.Entry} (hm : ∀ a, message ≠ .accepted a)
    (hjob : ∀ r, message = .chunkRequest r → s.manager.state ≠ .idle → s.jobState = .transferring →
      r.sequences ⊆ s.manager.tracker.requestedSequences) :
    Agrees (s.tell message) (t.told message) where
  wants := h.wants
  shown := h.shown
  jobs a ha := h.jobs a ((List.mem_cons.1 ha).resolve_left fun heq => hm a heq.symm)
  waiting hwaiting a ha := h.waiting hwaiting a ((List.mem_cons.1 ha).resolve_left fun heq => hm a heq.symm)
  size := h.size
  geometry := h.geometry
  settled htransferring hbusy := by
    obtain ⟨hopened, hsize, hbatch, hpending, haccepted⟩ := h.settled htransferring hbusy
    have haccepted' (a : Jobs.Acceptance) (ha : Jobs.Entry.accepted a ∈ (s.tell message).log) :=
      haccepted a ((List.mem_cons.1 ha).resolve_left fun heq => hm a heq.symm)
    cases message with
    | accepted a => exact absurd rfl (hm a)
    | chunkRequest r => exact ⟨hopened, hsize, hbatch, hjob r rfl hbusy htransferring, haccepted'⟩
    | status => exact ⟨hopened, hsize, hbatch, hpending, haccepted'⟩
    | inserted => exact ⟨hopened, hsize, hbatch, hpending, haccepted'⟩
  named hne := by
    cases message with
    | accepted a => exact absurd rfl (hm a)
    | chunkRequest r => exact ⟨r.job, r.request, rfl⟩
    | status => exact h.named hne
    | inserted => exact h.named hne

/-- So does a call of the manager that keeps the transfer, or opens it. -/
theorem managed (h : Agrees s t) {m : Manager} (hw : m.Wants)
    (hkeeps : Manager.Keeps s.manager m ∨ Manager.Opens s.manager m) (frames : List Transfer.Down) :
    Agrees (s.managed m frames) t where
  wants := hw
  shown hann := by
    replace hann : m.state = .announcing := hann
    simp [Jobs.State.managed, Jobs.publicAfter, hann]
  jobs a ha := h.jobs a (by simpa [Jobs.State.managed] using ha)
  waiting hwaiting a ha := h.waiting hwaiting a (by simpa [Jobs.State.managed] using ha)
  size hbusy := by
    rcases hkeeps with hkeeps | hopens
    · have hkept := hkeeps.kept hbusy
      rw [show (s.managed m frames).manager.fileSize = s.manager.fileSize from hkept.fileSize]
      exact h.size hkept.busy
    · rw [show (s.managed m frames).manager.fileSize = s.manager.fileSize from hopens.fileSize]
      exact h.size (by simp [hopens.announcing])
  geometry hbusy hann := by
    rcases hkeeps with hkeeps | hopens
    · have hkept := hkeeps.kept hbusy
      have hgeometry := h.geometry hkept.busy fun h => hann (hkept.announcing.2 h)
      change 0 < m.negotiatedChunkSize ∧ m.tracker.geometry.totalChunks = _
      rwa [hkept.chunkSize, hkept.geometry,
        show (s.managed m frames).manager.fileSize = s.manager.fileSize from hkept.fileSize,
        show (s.managed m frames).manager.negotiatedChunkSize = s.manager.negotiatedChunkSize from
          hkept.chunkSize]
    · exact ⟨hopens.chunkSize, hopens.geometry⟩
  settled htransferring hbusy := by
    rcases hkeeps with hkeeps | hopens
    · have hkept := hkeeps.kept hbusy
      obtain ⟨hopened, hsize, hbatch, hpending, haccepted⟩ := h.settled htransferring hkept.busy
      refine ⟨fun hann => hopened (hkept.announcing.1 hann), hsize.trans hkept.chunkSize.symm, hbatch,
        hpending.trans hkept.requested, fun a ha hjob => ?_⟩
      obtain ⟨hmax, htotal, hper⟩ := haccepted a (by simpa [Jobs.State.managed] using ha) hjob
      exact ⟨hmax.trans hkept.chunkSize.symm,
        htotal.trans (congrArg Geometry.totalChunks hkept.geometry).symm, hper⟩
    · have hbusy' : s.manager.state ≠ .idle := by simp [hopens.announcing]
      exact absurd hopens.announcing (h.settled htransferring hbusy').opened
  named := h.named

end Agrees

/-- The bridge has written down more than `old`, and the transport `t` has heard it. -/
structure Heard (old : List Jobs.Entry) (t : Transport) (s : Jobs.State) : Prop where
  suffix : old <:+ s.log
  agrees : Agrees s (heard old s.log t)

namespace Heard

variable {old : List Jobs.Entry} {s s' : Jobs.State} {t : Transport}

theorem congr (h : Heard old t s) (hm : s'.manager = s.manager) (hshown : s'.publicState = s.publicState)
    (hlog : s'.log = s.log) (hcounter : s'.jobCounter = s.jobCounter)
    (hjob : s'.jobState = s.jobState ∨ s'.jobState ≠ .waitingForLeaf ∧ s'.jobState ≠ .transferring) :
    Heard old t s' :=
  ⟨hlog ▸ h.suffix, by rw [hlog]; exact h.agrees.congr hm hshown hlog hcounter hjob⟩

theorem tell (h : Heard old t s) {message : Jobs.Entry} (hm : ∀ a, message ≠ .accepted a)
    (hjob : ∀ r, message = .chunkRequest r → s.manager.state ≠ .idle → s.jobState = .transferring →
      r.sequences ⊆ s.manager.tracker.requestedSequences) : Heard old t (s.tell message) := by
  refine ⟨h.suffix.trans (List.suffix_cons ..), ?_⟩
  change Agrees _ (heard old (message :: s.log) t)
  rw [heard_cons h.suffix]
  exact h.agrees.tell hm hjob

theorem managed (h : Heard old t s) {m : Manager} (hw : m.Wants)
    (hkeeps : Manager.Keeps s.manager m ∨ Manager.Opens s.manager m) (frames : List Transfer.Down) :
    Heard old t (s.managed m frames) := by
  refine ⟨h.suffix.trans (List.suffix_cons ..), ?_⟩
  change Agrees _ (heard old (_ :: s.log) t)
  rw [heard_cons h.suffix]
  exact h.agrees.managed hw hkeeps frames

theorem requestChunks (h : Heard old t s) (percent : Nat) : Heard old t (s.requestChunks percent) := by
  have hcount : Heard old t { s with chunkRequestCounter := s.chunkRequestCounter + 1 } :=
    h.congr rfl rfl rfl rfl (.inl rfl)
  refine hcount.tell (by simp) fun r hr _ _ => ?_
  cases hr
  exact subset_rfl

theorem emitStatus (h : Heard old t s) (percent : Nat) (state : Jobs.HostState) (detail : String) :
    Heard old t (s.emitStatus percent state detail) :=
  h.tell (by simp) (by simp)

/-- What is asked for is remembered. -/
theorem ask (h : Heard old t s) (percent : Nat) :
    Heard old t (({ s with lastRequestedSequences := s.manager.tracker.requestedSequences } :
      Jobs.State).requestChunks percent) := by
  have hremembered : Heard old t
      { s with lastRequestedSequences := s.manager.tracker.requestedSequences } :=
    h.congr rfl rfl rfl rfl (.inl rfl)
  exact hremembered.requestChunks percent

theorem emitRequests (h : Heard old t s) (percent : Nat) : Heard old t (s.emitRequests percent) := by
  unfold Jobs.State.emitRequests
  dsimp only
  split_ifs
  · exact h.congr rfl rfl rfl rfl (.inl rfl)
  · exact h.ask percent
  · exact h

theorem emitProgress (h : Heard old t s) (now : UInt32) (percent : Nat) :
    Heard old t (s.emitProgress now percent) := by
  unfold Jobs.State.emitProgress
  dsimp only
  generalize (if s.publicState = .verifying then Jobs.HostState.verifying else .transferring) = state
  split
  · exact (h.emitStatus percent state "").congr rfl rfl rfl rfl (.inl rfl)
  · exact h

theorem emitTransferring (h : Heard old t s) (now : UInt32) (percent : Nat) :
    Heard old t (s.emitTransferring now percent) := by
  unfold Jobs.State.emitTransferring
  split_ifs
  · exact (h.emitStatus percent .success "").congr rfl rfl rfl rfl (.inr (by simp))
  · exact (h.emitStatus percent .failed s.manager.lastError).congr rfl rfl rfl rfl (.inr (by simp))
  · exact ((h.emitRequests percent).emitProgress now percent).congr rfl rfl rfl rfl (.inl rfl)
  · exact h.congr rfl rfl rfl rfl (.inr (by simp))

/-- The acceptance tells the transport the chunk size of the manager. -/
theorem emitWaiting (h : Heard old t s) (hjob : s.jobState = .waitingForLeaf) (now : UInt32)
    (percent : Nat) : Heard old t (s.emitWaiting now percent) := by
  unfold Jobs.State.emitWaiting
  dsimp only
  split_ifs with haccept
  · refine ⟨(h.suffix.trans (List.suffix_cons ..)).trans (List.suffix_cons ..), ?_⟩
    change Agrees _ (heard old (_ :: _ :: s.log) t)
    rw [heard_cons (h.suffix.trans (List.suffix_cons ..)), heard_cons h.suffix]
    have hopened : s.manager.state ≠ .announcing := fun hann => h.agrees.shown hann haccept.2.1
    refine ⟨h.agrees.wants, h.agrees.shown, fun a ha => ?_, by simp [Jobs.State.requestChunks, Jobs.State.tell],
      h.agrees.size, h.agrees.geometry, fun _ _ => ⟨hopened, rfl, rfl, subset_rfl, fun a ha hcounter => ?_⟩,
      fun _ => ⟨_, _, rfl⟩⟩
    · rcases List.mem_cons.1 ((List.mem_cons.1 ha).resolve_left (by simp)) with heq | ha
      · cases heq
        exact le_rfl
      · exact h.agrees.jobs a ha
    · rcases List.mem_cons.1 ((List.mem_cons.1 ha).resolve_left (by simp)) with heq | ha
      · cases heq
        exact ⟨rfl, rfl, rfl⟩
      · exact absurd hcounter (h.agrees.waiting hjob a ha)
  · exact h.congr rfl rfl rfl rfl (.inl rfl)
  · exact (h.emitStatus percent .failed "OTA transfer failed before leaf accepted").congr rfl rfl rfl rfl
      (.inr (by simp))

theorem emitOtaEvents (h : Heard old t s) (now : UInt32) (percent : Nat) :
    Heard old t (s.emitOtaEvents now percent) := by
  unfold Jobs.State.emitOtaEvents
  split
  · exact h
  · split
    · next hjob => exact h.emitWaiting hjob now percent
    · exact h.emitTransferring now percent
    · exact h

/-- A turn of the loop leaves the transport in agreement with the manager, once it has heard the
messages. -/
theorem tick (h : Heard old t s) (e : Transfer.Env) (percent : Nat) : Heard old t (s.tick e percent) := by
  have htakes := Manager.loop_takes (Transfer.managerContext e) s.manager s.frames
  have hkeeps := Manager.loop_keeps (Transfer.managerContext e) s.manager s.frames
  exact (h.managed (htakes.wants h.agrees.wants) (.inl hkeeps) _).emitOtaEvents e.now percent

theorem fileAck (h : Heard old t s) (e : Transfer.Env) (leafMac : Mac) (ackType result : UInt8)
    (ref : UInt32) (trailing : Bytes) :
    Heard old t (s.fileAck e leafMac ackType result ref trailing) := by
  have htakes := Manager.onFileAck_takes (Transfer.managerContext e) s.manager s.frames leafMac ackType
    result ref trailing
  have hkeeps := Manager.onFileAck_keeps (Transfer.managerContext e) s.manager s.frames h.agrees.wants
    leafMac ackType result ref trailing
  exact h.managed (htakes.wants h.agrees.wants) hkeeps _

theorem apiOtaAbort (h : Heard old t s) (e : Transfer.Env) (job : Option Nat) :
    Heard old t (s.apiOtaAbort e job).1 := by
  have htakes := Manager.onSourceAbort_takes (Transfer.managerContext e) s.manager s.frames 0x00
  have hkeeps := Manager.onSourceAbort_keeps (Transfer.managerContext e) s.manager s.frames 0x00
  unfold Jobs.State.apiOtaAbort
  dsimp only
  split_ifs
  · exact h
  · exact h
  · have hmanaged := h.managed (htakes.wants h.agrees.wants) (.inl hkeeps)
      (s.manager.onSourceAbort (Transfer.managerContext e) s.frames 0x00).2
    exact hmanaged.congr rfl rfl rfl rfl (.inr (by simp))

theorem apiOtaResendChunkRequest (h : Heard old t s) (percent : Nat) :
    Heard old t (s.apiOtaResendChunkRequest percent) := by
  unfold Jobs.State.apiOtaResendChunkRequest
  dsimp only
  split_ifs
  · exact h.congr rfl rfl rfl rfl (.inl rfl)
  · exact h.ask percent
  · exact h

theorem apiOtaStart (h : Heard old t s) (e : Transfer.Env) (o : Jobs.Order) :
    Heard old t (s.apiOtaStart e o).1 := by
  unfold Jobs.State.apiOtaStart
  cases o.targetMac with
  | none => exact h
  | some mac =>
  cases o.session with
  | none => exact h
  | some remoteMax =>
  dsimp only
  split
  · exact h
  rename_i hbusy
  have hidle : s.manager.state = .idle := by simpa [Manager.isBusy] using hbusy
  cases o.md5 with
  | none => exact h
  | some md5 =>
  have hnew := Manager.startTransfer_busy (Transfer.managerContext e) s.manager s.frames mac o.fileSize
    md5 0x01 remoteMax o.fileId hidle
  obtain ⟨m, frames, started, hstart⟩ : ∃ m frames started,
      s.manager.startTransfer (Transfer.managerContext e) s.frames mac o.fileSize md5 0x01 remoteMax
        o.fileId = (m, frames, started) := ⟨_, _, _, rfl⟩
  obtain ⟨hw, hl⟩ := Manager.startTransfer_spec _ _ _ hidle h.agrees.wants hstart
  have hrefused := Jobs.Inv.startTransfer_refused (s := s) (e := e) hstart
  rw [hstart] at hnew
  dsimp only at hnew ⊢
  rw [hstart]
  dsimp only
  have hidle' : ¬ started = true → m.state = .idle := by
    intro hnot
    by_contra hbusy
    exact hnot (hl (.inl (hnew hbusy).1)).2
  have htold : heard old ((s.managed m frames).log) t = heard old s.log t :=
    heard_cons h.suffix _ t
  have hmem (a : Jobs.Acceptance) (ha : Jobs.Entry.accepted a ∈ (s.managed m frames).log) :
      Jobs.Entry.accepted a ∈ s.log := by
    simpa [Jobs.State.managed] using ha
  split
  next hnot =>
    refine ⟨h.suffix.trans (List.suffix_cons ..), ?_⟩
    change Agrees _ (heard old (s.managed m frames).log t)
    rw [htold]
    have hover := hidle' hnot
    exact ⟨hw, fun hann => absurd hann (by simp [Jobs.State.managed, hover]),
      fun a ha => h.agrees.jobs a (hmem a ha), fun hwaiting a ha => h.agrees.waiting hwaiting a (hmem a ha),
      fun hbusy => absurd hover hbusy, fun hbusy => absurd hover hbusy,
      fun _ hbusy => absurd hover hbusy, h.agrees.named⟩
  next hstarted =>
    refine ⟨h.suffix.trans (List.suffix_cons ..), ?_⟩
    change Agrees _ (heard old (s.managed m frames).log t)
    rw [htold]
    refine ⟨hw, fun hann => ?_, fun a ha => ?_, fun _ a ha => ?_, fun hbusy => ?_,
      fun hbusy hann => absurd (hnew hbusy).1 hann, fun htransferring => ?_, h.agrees.named⟩
    · replace hann : m.state = .announcing := hann
      have hnot : ¬ Jobs.State.refused s.manager o.fileSize remoteMax = true := by
        intro hrefuse
        simp [hrefused hrefuse, hidle] at hann
      dsimp only
      rw [if_neg hnot, if_neg (by simp [hann])]
      decide
    · exact Nat.le_succ_of_le (h.agrees.jobs a (hmem a ha))
    · exact Nat.ne_of_lt (Nat.lt_succ_of_le (h.agrees.jobs a (hmem a ha)))
    · obtain ⟨-, hsize, hpos, hle⟩ := hnew hbusy
      change 0 < m.fileSize ∧ m.fileSize ≤ _
      rw [hsize]
      exact ⟨hpos, hle⟩
    · simp at htransferring

end Heard

/-! ## Chunks that are taken -/

/-- The manager has taken a chunk. -/
def queued (m : Manager) (sequence : Nat) (data : Bytes) : Manager :=
  { m with
    pendingChunks := m.pendingChunks ++ [⟨sequence, data⟩]
    tracker := { m.tracker with requestedSequences := m.tracker.requestedSequences.erase sequence } }

/-- A chunk of the right length that the manager has asked for is taken. -/
theorem onSourceChunk_of (m : Manager) {sequence : Nat} {data : Bytes} (hb : m.state = .blasting)
    (hreq : sequence ∈ m.tracker.requestedSequences) (hne : m.expectedChunkLen sequence ≠ 0)
    (hlength : data.length = m.expectedChunkLen sequence) :
    m.onSourceChunk sequence data = (queued m sequence data, true) := by
  unfold Manager.onSourceChunk
  rw [if_neg (not_not.2 hb), if_neg (not_not.2 hreq)]
  dsimp only
  rw [if_neg (not_or.2 ⟨hne, not_not.2 hlength⟩)]
  rfl

/-- A chunk is refused, with nothing changed, or it is queued. -/
theorem onSourceChunk_cases (m : Manager) (sequence : Nat) (data : Bytes) :
    m.onSourceChunk sequence data = (m, false) ∨
      m.state = .blasting ∧ m.onSourceChunk sequence data = (queued m sequence data, true) := by
  unfold Manager.onSourceChunk
  dsimp only
  split
  · exact .inl rfl
  next hb =>
    split
    · exact .inl rfl
    · split
      · exact .inl rfl
      · exact .inr ⟨not_not.1 hb, rfl⟩

/-- The bridge refuses a chunk as the manager does, or when there is no transfer. -/
theorem apiOtaInjectChunk_cases (s : Jobs.State) (sequence : Nat) (data : Bytes) :
    s.apiOtaInjectChunk sequence data = (s, false) ∨
      s.apiOtaInjectChunk sequence data = (s.managed s.manager s.frames, false) ∨
      (s.manager.state = .blasting ∧
          s.manager.onSourceChunk sequence data = (queued s.manager sequence data, true)) ∧
        s.apiOtaInjectChunk sequence data = (s.managed (queued s.manager sequence data) s.frames, true) := by
  unfold Jobs.State.apiOtaInjectChunk
  split
  · exact .inl rfl
  · rcases onSourceChunk_cases s.manager sequence data with heq | ⟨hb, heq⟩
    · rw [heq]
      exact .inr (.inl rfl)
    · refine .inr (.inr ⟨⟨hb, heq⟩, ?_⟩)
      rw [heq]

/-- The transport and the manager cross off the same sequence number. -/
theorem Agrees.queued {s : Jobs.State} {t : Transport} {sequence : Nat} {data : Bytes} (h : Agrees s t)
    (hb : s.manager.state = .blasting)
    (htaken : s.manager.onSourceChunk sequence data = (queued s.manager sequence data, true)) :
    Agrees (s.managed (queued s.manager sequence data) s.frames) (t.erase sequence) where
  wants := by
    have htakes := Manager.onSourceChunk_takes s.manager sequence data
    rw [htaken] at htakes
    exact htakes.wants h.wants
  shown hann := by
    replace hann : s.manager.state = .announcing := hann
    simp [hb] at hann
  jobs a ha := h.jobs a (by simpa [Jobs.State.managed] using ha)
  waiting hwaiting a ha := h.waiting hwaiting a (by simpa [Jobs.State.managed] using ha)
  size := h.size
  geometry := h.geometry
  settled htransferring hbusy := by
    obtain ⟨hopened, hsize, hbatch, hpending, haccepted⟩ := h.settled htransferring hbusy
    exact ⟨hopened, hsize, hbatch, Finset.erase_subset_erase _ hpending, fun a ha hjob =>
      haccepted a (by simpa [Jobs.State.managed] using ha) hjob⟩
  named hne := by
    replace hne : t.otaPendingSequences.erase sequence ≠ ∅ := hne
    have hkept : (t.erase sequence).otaChunkRequestId = t.otaChunkRequestId := if_neg hne
    rw [hkept]
    refine h.named fun hempty => hne ?_
    rw [hempty]
    rfl

namespace Agrees

variable {s : Link}

/-- What the bridge does keeps the transport in agreement with it. -/
theorem event (h : Agrees s.bridge s.transport) {e : Jobs.Event}
    (hproper : (Link.Event.bridge e).Proper) : Agrees (s.event e).bridge (s.event e).transport := by
  have hheard : Heard s.bridge.log s.transport s.bridge :=
    ⟨List.suffix_rfl, by rw [heard_self]; exact h⟩
  cases e with
  | start e o => exact (hheard.apiOtaStart e o).agrees
  | abort e job => exact (hheard.apiOtaAbort e job).agrees
  | chunk => exact hproper.elim
  | resend percent => exact (hheard.apiOtaResendChunkRequest percent).agrees
  | connect => exact Heard.agrees (hheard.congr rfl rfl rfl rfl (.inl rfl))
  | disconnect =>
    refine ⟨h.wants, h.shown, h.jobs, h.waiting, h.size, h.geometry, fun htransferring hbusy => ?_,
      fun hne => absurd rfl hne⟩
    obtain ⟨hopened, hsize, hbatch, -, haccepted⟩ := h.settled htransferring hbusy
    exact ⟨hopened, hsize, hbatch, Finset.empty_subset _, haccepted⟩
  | ack e leafMac ackType result ref trailing =>
    exact (hheard.fileAck e leafMac ackType result ref trailing).agrees
  | tick e percent => exact (hheard.tick e percent).agrees

/-- So does a batch of the host. -/
theorem takeChunks (h : Agrees s.bridge s.transport) (e : Transfer.Env) (chunks : List ParsedOtaChunk) :
    Agrees (s.takeChunks e chunks).1.bridge (s.takeChunks e chunks).1.transport := by
  induction chunks generalizing s with
  | nil => exact h
  | cons c chunks ih =>
    unfold Link.takeChunks
    dsimp only
    split
    · exact h.event trivial
    · rcases apiOtaInjectChunk_cases s.bridge c.sequence (c.payload.getD []) with
        heq | heq | ⟨⟨hb, htaken⟩, heq⟩
      · rw [heq]
        exact h.event trivial
      · rw [heq]
        have hsame : Agrees (s.bridge.managed s.bridge.manager s.bridge.frames) s.transport :=
          h.managed h.wants (.inl .refl) _
        exact event (s := { s with bridge := _ }) hsame trivial
      · rw [heq]
        exact ih (s := ⟨_, _⟩) (h.queued hb htaken)

/-- One event of the link keeps the agreement. -/
theorem step (h : Agrees s.bridge s.transport) {e : Link.Event} (hproper : e.Proper) :
    Agrees (s.step e).bridge (s.step e).transport := by
  cases e with
  | bridge e => exact h.event hproper
  | binary e percent payload =>
    unfold Link.step Link.handleBinary
    dsimp only
    split
    · exact h
    · split_ifs
      · exact h
      · unfold Link.handleOtaChunkBatch
        split
        · exact h
        · split_ifs
          · exact h
          · exact h.event trivial
          · exact h.event trivial
          · exact h.takeChunks e _
      · exact h
      · exact h

theorem boot (h : s.Boot) : Agrees s.bridge s.transport := by
  obtain ⟨⟨config, hbridge⟩, htransport⟩ := h
  rw [hbridge, htransport]
  exact ⟨⟨by simp, fun _ => rfl⟩, by simp, by simp, by simp, by simp, by simp, by simp, by simp⟩

/-- In every run. -/
theorem of_reachable (h : s.Reachable) : Agrees s.bridge s.transport :=
  Transition.Reachable.invariant (I := fun s : Link => Agrees s.bridge s.transport)
    (fun _ => boot) (fun _ _ hs hproper => hs.step hproper) h

end Agrees

/-! ## Batches that are taken -/

/-- The transfer of `file` goes on. -/
structure Serving (file : Bytes) (s : Link) : Prop where
  connected : s.bridge.connected = true
  job : s.bridge.jobState = .transferring
  blasting : s.bridge.manager.state = .blasting
  fileSize : s.bridge.manager.fileSize = file.length

/-- What both ends know while the transfer goes on. -/
structure Ready (file : Bytes) (s : Link) : Prop extends Serving file s where
  size : 0 < s.transport.otaMaxChunkSize
  chunkSize : s.transport.otaMaxChunkSize = s.bridge.manager.negotiatedChunkSize
  batch : s.transport.otaMaxChunksPerBatch = 6
  length : 0 < file.length ∧ file.length ≤ 2 ^ 30
  total : s.bridge.manager.tracker.geometry.totalChunks =
    Geometry.divUp file.length s.transport.otaMaxChunkSize
  pending : s.transport.otaPendingSequences ⊆ s.bridge.manager.tracker.requestedSequences

/-- A link that serves the file is ready for its chunks. -/
theorem Serving.ready {file : Bytes} {s : Link} (h : Serving file s)
    (hagrees : Agrees s.bridge s.transport) : Ready file s := by
  have hbusy : s.bridge.manager.state ≠ .idle := by simp [h.blasting]
  have hann : s.bridge.manager.state ≠ .announcing := by simp [h.blasting]
  obtain ⟨-, hsize, hbatch, hpending, -⟩ := hagrees.settled h.job hbusy
  obtain ⟨hpos, htotal⟩ := hagrees.geometry hbusy hann
  have hlength := hagrees.size hbusy
  rw [h.fileSize] at htotal hlength
  exact ⟨h, hsize ▸ hpos, hsize, hbatch, hlength, hsize ▸ htotal, hpending⟩

/-- Bytes `sequence * size` to `(sequence + 1) * size` of the file, or to its end. -/
def fileRange (file : Bytes) (size sequence : Nat) : Bytes :=
  (file.take (min ((sequence + 1) * size) file.length)).drop (sequence * size)

/-- The host cuts the file as the manager does. -/
theorem slice_eq_fileRange (file : Bytes) (size sequence : Nat) :
    slice file (sequence * size) size = fileRange file size sequence := by
  rw [fileRange, ← List.take_take, List.take_length, List.drop_take, Nat.succ_mul,
    Nat.add_sub_cancel_left, slice]

namespace Ready

variable {file : Bytes} {s : Link} {client : Client}

/-- A chunk of the host passes the tests of the transport. -/
theorem not_invalid (h : Ready file s) (hclient : client.maxChunkSize = s.transport.otaMaxChunkSize)
    {q : Nat} (hpending : q ∈ s.transport.otaPendingSequences)
    (hstart : q * s.transport.otaMaxChunkSize < file.length) :
    s.transport.invalid (client.cut file q).parsed = false := by
  have hlength := length_slice_chunk file s.transport.otaMaxChunkSize q
  have hsize := h.size
  have hflags : (client.cut file q).flags / 2 = 0 := by
    unfold Client.cut
    dsimp only
    split <;> rfl
  unfold Transport.invalid OtaChunk.parsed
  simp only [hflags]
  unfold Client.cut
  simp only [hclient, crc32Bytes_eq, hpending, hlength]
  simp
  omega

/-- And it is as long as the manager expects. -/
theorem onSourceChunk (h : Ready file s) {q : Nat} (hpending : q ∈ s.transport.otaPendingSequences)
    (hbelow : q < Geometry.divUp file.length s.transport.otaMaxChunkSize) :
    s.bridge.manager.onSourceChunk q (slice file (q * s.transport.otaMaxChunkSize)
        s.transport.otaMaxChunkSize) =
      (queued s.bridge.manager q (slice file (q * s.transport.otaMaxChunkSize)
        s.transport.otaMaxChunkSize), true) := by
  have hstart := start_lt_of_lt_divUp h.size h.length.1 hbelow
  have hlength := length_slice_chunk file s.transport.otaMaxChunkSize q
  have hsize := h.size
  have hexpected : s.bridge.manager.expectedChunkLen q =
      min (file.length - q * s.transport.otaMaxChunkSize) s.transport.otaMaxChunkSize := by
    rw [Manager.expectedChunkLen, Geometry.expectedChunkLen, h.total, h.fileSize, ← h.chunkSize,
      if_neg (by omega), if_neg (by omega)]
  exact onSourceChunk_of _ h.blasting (h.pending hpending) (by rw [hexpected]; omega)
    (hlength.trans hexpected.symm)

/-- The link after a chunk. -/
def after (file : Bytes) (s : Link) (q : Nat) : Link where
  bridge := s.bridge.managed (queued s.bridge.manager q (fileRange file s.transport.otaMaxChunkSize q))
    s.bridge.frames
  transport := s.transport.erase q

/-- A pending chunk of the file is taken. -/
theorem apiOtaInjectChunk (h : Ready file s) {q : Nat} (hpending : q ∈ s.transport.otaPendingSequences)
    (hbelow : q < Geometry.divUp file.length s.transport.otaMaxChunkSize) :
    s.bridge.apiOtaInjectChunk q (slice file (q * s.transport.otaMaxChunkSize)
      s.transport.otaMaxChunkSize) = ((after file s q).bridge, true) := by
  unfold Jobs.State.apiOtaInjectChunk
  rw [if_neg (not_not.2 h.job), h.onSourceChunk hpending hbelow, slice_eq_fileRange]
  rfl

/-- The link is ready for the next one after that. -/
theorem next (h : Ready file s) (q : Nat) : Ready file (after file s q) where
  connected := h.connected
  job := h.job
  blasting := h.blasting
  fileSize := h.fileSize
  size := h.size
  chunkSize := h.chunkSize
  batch := h.batch
  length := h.length
  total := h.total
  pending := Finset.erase_subset_erase q h.pending

end Ready

/-- What the manager has queued and the transport has crossed off after a batch. -/
structure Injected (file : Bytes) (s s' : Link) (sequences : List Nat) : Prop where
  queue : s'.bridge.manager.pendingChunks = s.bridge.manager.pendingChunks ++
    sequences.map fun q => ⟨q, fileRange file s.transport.otaMaxChunkSize q⟩
  requested : s'.bridge.manager.tracker.requestedSequences =
    s.bridge.manager.tracker.requestedSequences \ sequences.toFinset
  pending : s'.transport.otaPendingSequences = s.transport.otaPendingSequences \ sequences.toFinset
  request : s'.transport.otaPendingSequences ≠ ∅ →
    s'.transport.otaChunkRequestId = s.transport.otaChunkRequestId
  chunkSize : s'.transport.otaMaxChunkSize = s.transport.otaMaxChunkSize
  counter : s'.bridge.jobCounter = s.bridge.jobCounter

namespace Injected

variable {file : Bytes} {s s' : Link} {q : Nat} {sequences : List Nat}

theorem refl : Injected file s s [] where
  queue := by simp
  requested := by simp
  pending := by simp
  request _ := rfl
  chunkSize := rfl
  counter := rfl

theorem cons (h : Injected file (Ready.after file s q) s' sequences) :
    Injected file s s' (q :: sequences) where
  queue := by
    rw [h.queue]
    simp [Ready.after, Jobs.State.managed, queued, Transport.erase]
  requested := by
    rw [h.requested, List.toFinset_cons]
    ext r
    simp [Ready.after, Jobs.State.managed, queued]
    tauto
  pending := by
    rw [h.pending, List.toFinset_cons]
    ext r
    simp [Ready.after, Transport.erase]
    tauto
  request hne := by
    refine (h.request hne).trans (if_neg fun hempty => hne ?_)
    rw [h.pending]
    change s.transport.otaPendingSequences.erase q \ _ = ∅
    rw [hempty, Finset.empty_sdiff]
  chunkSize := h.chunkSize
  counter := h.counter

end Injected

/-- The chunks of a batch are taken one after the other. -/
theorem Ready.takeChunks {file : Bytes} {s : Link} {client : Client} (h : Ready file s)
    (hclient : client.maxChunkSize = s.transport.otaMaxChunkSize) (e : Transfer.Env)
    {sequences : List Nat} (hnodup : sequences.Nodup)
    (hpending : ∀ q ∈ sequences, q ∈ s.transport.otaPendingSequences)
    (hbelow : ∀ q ∈ sequences, q < Geometry.divUp file.length s.transport.otaMaxChunkSize) :
    (s.takeChunks e (sequences.map fun q => (client.cut file q).parsed)).2 = none ∧
      Injected file s (s.takeChunks e (sequences.map fun q => (client.cut file q).parsed)).1
        sequences := by
  induction sequences generalizing s with
  | nil => exact ⟨rfl, .refl⟩
  | cons q sequences ih =>
    obtain ⟨hnew, hnodup⟩ := List.nodup_cons.1 hnodup
    have hq := hpending q List.mem_cons_self
    have hlt := hbelow q List.mem_cons_self
    have hvalid := h.not_invalid hclient hq (start_lt_of_lt_divUp h.size h.length.1 hlt)
    have hinject := h.apiOtaInjectChunk hq hlt
    obtain ⟨hnone, hinjected⟩ := ih (h.next q) hclient hnodup
      (fun r hr => Finset.mem_erase.2 ⟨fun heq => hnew (heq ▸ hr), hpending r (List.mem_cons_of_mem _ hr)⟩)
      fun r hr => hbelow r (List.mem_cons_of_mem _ hr)
    have hstep : s.takeChunks e ((q :: sequences).map fun q => (client.cut file q).parsed) =
        (Ready.after file s q).takeChunks e (sequences.map fun q => (client.cut file q).parsed) := by
      rw [List.map_cons, Link.takeChunks]
      simp only [hvalid]
      simp only [OtaChunk.parsed, Client.cut, hclient, Option.getD_some, hinject]
      rfl
    rw [hstep]
    exact ⟨hnone, hinjected.cons⟩

theorem length_requestIdText (job request : Nat) :
    requestIdText job request ≠ [] ∧ (requestIdText job request).length < 2 ^ 32 := by
  have hdigits : (Nat.toDigits 10 (request % 2 ^ 32)).length ≤ 10 := by
    rw [Nat.length_toDigits_le_iff (by decide) (by decide)]
    exact Nat.lt_trans (Nat.mod_lt _ (by decide)) (by decide)
  refine ⟨by simp [requestIdText], ?_⟩
  simp only [requestIdText, jobIdText, hex4, decimal, List.length_append, List.length_map,
    List.length_cons, List.length_nil]
  omega

/-- A batch of the host for the present request is taken. -/
theorem Ready.handleBinary {file : Bytes} {s : Link} {client : Client} (h : Ready file s)
    (hagrees : Agrees s.bridge s.transport)
    (hclient : client.maxChunkSize = s.transport.otaMaxChunkSize)
    (hjob : client.jobId = jobIdText s.bridge.jobCounter) (e : Transfer.Env) (percent : Nat)
    {piece : List Nat} (hne : piece ≠ []) (hcount : piece.length ≤ 6) (hnodup : piece.Nodup)
    (hpending : ∀ q ∈ piece, q ∈ s.transport.otaPendingSequences)
    (hbelow : ∀ q ∈ piece, q < Geometry.divUp file.length s.transport.otaMaxChunkSize) :
    let batch : OtaChunkBatch := ⟨client.jobId, s.transport.otaChunkRequestId, piece.map (client.cut file)⟩
    (s.handleBinary e percent batch.envelope).2 = none ∧
      Injected file s (s.handleBinary e percent batch.envelope).1 piece := by
  intro batch
  have hfits : batch.Fits := by
    obtain ⟨q, hq⟩ := List.exists_mem_of_ne_nil piece hne
    obtain ⟨job, request, hrequest⟩ := hagrees.named (Finset.ne_empty_of_mem (hpending q hq))
    obtain ⟨hid, hlength⟩ := length_requestIdText job request
    refine ⟨?_, ?_, ?_, ?_, ?_, by simpa [batch] using hne, ?_⟩
    · simp [batch, hjob, jobIdText, hex4]
    · simp [batch, hjob, jobIdText, hex4]
    · exact fun hempty => hid (hrequest.symm.trans hempty)
    · change s.transport.otaChunkRequestId.length < _
      rwa [hrequest]
    · intro c hc
      obtain ⟨q, hq, rfl⟩ := List.mem_map.1 hc
      have hstart := start_lt_of_lt_divUp h.size h.length.1 (hbelow q hq)
      have hlength := h.length.2
      rw [← hclient] at hstart
      exact Client.cut_fits (hclient ▸ h.size) (by omega) hstart
    · simp only [batch, List.length_map]
      omega
  have hactive : ¬ (s.bridge.jobState = .idle ∨ batch.jobId ≠ jobIdText s.bridge.jobCounter) := by
    simp [h.job, batch, hjob]
  have hroom : ¬ s.transport.otaMaxChunksPerBatch < (batch.chunks.map OtaChunk.parsed).length := by
    simp only [batch, List.length_map, h.batch]
    omega
  have hparsed : batch.chunks.map OtaChunk.parsed = piece.map fun q => (client.cut file q).parsed := by
    simp [batch]
  unfold Link.handleBinary Link.handleOtaChunkBatch
  simp only [parseEnvelope_envelope hfits, parseOtaChunkBatch_fields hfits]
  rw [if_neg (by simp), if_neg (by simp [h.connected]), if_pos trivial, if_neg hactive,
    if_neg (not_not.2 rfl), if_neg hroom, hparsed]
  exact h.takeChunks hclient e hnodup hpending hbelow

/-- The batches arrive one after the other.  Before each of them the bridge may do what it wants, as long
as it neither asks anew nor ends the session or the job: then it refuses none of them, and the manager
gets the bytes of the file. -/
def Link.Takes (file : Bytes) : Link → List OtaChunkBatch → Prop
  | _, [] => True
  | s, b :: rest =>
    ∀ (work : List Link.Event) (e : Transfer.Env) (percent : Nat),
      Transition.Admits (fun _ w => w.Proper) Link.step s work →
      (Transition.runFrom Link.step s work).transport = s.transport →
      (Transition.runFrom Link.step s work).bridge.jobCounter = s.bridge.jobCounter →
      Serving file (Transition.runFrom Link.step s work) →
      ((Transition.runFrom Link.step s work).handleBinary e percent b.envelope).2 = none ∧
        Injected file (Transition.runFrom Link.step s work)
          ((Transition.runFrom Link.step s work).handleBinary e percent b.envelope).1
          (b.chunks.map OtaChunk.sequence) ∧
        Takes file ((Transition.runFrom Link.step s work).handleBinary e percent b.envelope).1 rest

/-- Batch after batch is taken, down to the last of the request. -/
theorem takes_pieces {file : Bytes} {client : Client} {request : Bytes} {ps : List (List Nat)} {s : Link}
    (hs : s.Reachable) (hclient : client.maxChunkSize = s.transport.otaMaxChunkSize)
    (hjob : client.jobId = jobIdText s.bridge.jobCounter)
    (hrequest : ps ≠ [] → request = s.transport.otaChunkRequestId)
    (hpieces : ∀ piece ∈ ps, piece ≠ [] ∧ piece.length ≤ 6) (hnodup : ps.flatten.Nodup)
    (hpending : ∀ q ∈ ps.flatten, q ∈ s.transport.otaPendingSequences)
    (hbelow : ∀ q ∈ ps.flatten, q < Geometry.divUp file.length s.transport.otaMaxChunkSize) :
    s.Takes file (ps.map fun piece => ⟨client.jobId, request, piece.map (client.cut file)⟩) := by
  induction ps generalizing s with
  | nil => trivial
  | cons piece ps ih =>
    obtain ⟨hne, hcount⟩ := hpieces piece List.mem_cons_self
    rw [List.flatten_cons] at hnodup hpending hbelow
    obtain ⟨hnodup₁, hnodup₂, hdisjoint⟩ := List.nodup_append.1 hnodup
    intro work e percent hproper htransport hcounter hserving
    have hreach := hs.runFrom hproper
    generalize Transition.runFrom Link.step s work = s₁ at *
    have hagrees := Agrees.of_reachable hreach
    rw [← htransport] at hclient hpending hbelow hrequest
    rw [← hcounter] at hjob
    have hsame := hrequest (by simp)
    obtain ⟨hnone, hinjected⟩ := (hserving.ready hagrees).handleBinary hagrees hclient hjob e percent hne
      hcount hnodup₁ (fun q hq => hpending q (List.mem_append_left _ hq))
      fun q hq => hbelow q (List.mem_append_left _ hq)
    rw [← hsame] at hnone hinjected
    have hsequences : (piece.map (client.cut file)).map OtaChunk.sequence = piece := by
      simp [Function.comp_def, Client.cut]
    refine ⟨hnone, by rw [hsequences]; exact hinjected, ?_⟩
    have hreach' := Transition.Reachable.next (e := Link.Event.binary e percent
      (OtaChunkBatch.envelope ⟨client.jobId, request, piece.map (client.cut file)⟩)) hreach trivial
    change Link.Reachable (s₁.handleBinary e percent _).1 at hreach'
    generalize (s₁.handleBinary e percent
      (OtaChunkBatch.envelope ⟨client.jobId, request, piece.map (client.cut file)⟩)).1 = s₂ at *
    have hrest (q : Nat) (hq : q ∈ ps.flatten) : q ∈ s₂.transport.otaPendingSequences := by
      rw [hinjected.pending]
      refine Finset.mem_sdiff.2 ⟨hpending q (List.mem_append_right _ hq), fun hmem => ?_⟩
      exact hdisjoint q (List.mem_toFinset.1 hmem) q hq rfl
    refine ih hreach' (hclient.trans hinjected.chunkSize.symm) (hjob.trans (by rw [hinjected.counter]))
      (fun hps => ?_) (fun p hp => hpieces p (List.mem_cons_of_mem _ hp)) hnodup₂ hrest
      fun q hq => by rw [hinjected.chunkSize]; exact hbelow q (List.mem_append_right _ hq)
    -- something is left, so that the request stands
    obtain ⟨p, hp⟩ := List.exists_mem_of_ne_nil ps hps
    obtain ⟨q, hq⟩ := List.exists_mem_of_ne_nil p (hpieces p (List.mem_cons_of_mem _ hp)).1
    exact hsame.trans (hinjected.request (Finset.ne_empty_of_mem
      (hrest q (List.mem_flatten.2 ⟨p, hp, hq⟩)))).symm

/-- While a transfer goes on, the host's answer to the present request, or to what is left of it, is
taken whole: the batches are no larger than the bridge allows, they cover what was asked for, and each
chunk passes. -/
theorem chunks_agree {s : Link} (hs : s.Reachable) {file : Bytes} (hserving : Serving file s)
    {a : Jobs.Acceptance} (ha : .accepted a ∈ s.bridge.log) (hjob : a.job = s.bridge.jobCounter)
    (client : Client) {sequences : List Nat} (hnodup : sequences.Nodup)
    (hasked : ∀ q ∈ sequences, q ∈ s.transport.otaPendingSequences)
    (hbelow : ∀ q ∈ sequences, q < a.totalChunks) :
    ∃ batches, (client.start a).sendChunks file s.transport.otaChunkRequestId sequences = some batches ∧
      (∀ b ∈ batches, b.chunks.length ≤ s.transport.otaMaxChunksPerBatch) ∧
      batches.flatMap (fun b => b.chunks.map OtaChunk.sequence) = sequences ∧
      s.Takes file batches := by
  have hagrees := Agrees.of_reachable hs
  have hready := hserving.ready hagrees
  have hbusy : s.bridge.manager.state ≠ .idle := by simp [hserving.blasting]
  obtain ⟨hmax, htotal, hper⟩ := (hagrees.settled hserving.job hbusy).accepted a ha hjob
  rw [← hready.chunkSize] at hmax
  rw [htotal, hready.total] at hbelow
  have hsize := hready.size
  have hlength := hready.length
  have hclient : (client.start a).maxChunkSize = s.transport.otaMaxChunkSize := by
    rw [Client.start, orElse, hmax, if_neg (by omega)]
  have hbatch : (client.start a).maxChunksPerBatch = 6 := by
    rw [Client.start, orElse, hper]
    rfl
  have hid : (client.start a).jobId = jobIdText s.bridge.jobCounter := by rw [Client.start, hjob]
  have hpieces : ∀ piece ∈ pieces 6 sequences, piece ≠ [] ∧ piece.length ≤ 6 := fun _ =>
    of_mem_pieces (by decide)
  have hflatten := flatten_pieces (by decide : 0 < 6) sequences
  have hstart : ∀ q ∈ sequences, q * (client.start a).maxChunkSize < file.length := by
    intro q hq
    rw [hclient]
    exact start_lt_of_lt_divUp hsize hlength.1 (hbelow q hq)
  have hsend : (client.start a).sendChunks file s.transport.otaChunkRequestId sequences =
      some ((pieces 6 sequences).map fun piece => ⟨(client.start a).jobId, s.transport.otaChunkRequestId,
        piece.map ((client.start a).cut file)⟩) := by
    have hjobId : (client.start a).jobId ≠ [] := by simp [hid, jobIdText, hex4]
    rw [Client.sendChunks_eq hjobId (hclient ▸ hsize) (by omega) hstart, hbatch]
    rfl
  refine ⟨_, hsend, fun b hb => ?_, ?_, ?_⟩
  · obtain ⟨piece, hpiece, rfl⟩ := List.mem_map.1 hb
    rw [hready.batch, List.length_map]
    exact (hpieces piece hpiece).2
  · have hsequences (piece : List Nat) :
        (piece.map ((client.start a).cut file)).map OtaChunk.sequence = piece := by
      simp [Function.comp_def, Client.cut]
    simp only [List.flatMap_map, hsequences]
    rw [List.flatMap_id', hflatten]
  · refine takes_pieces hs hclient hid (fun _ => rfl) hpieces ?_ ?_ ?_
    · rw [hflatten]
      exact hnodup
    · rw [hflatten]
      exact hasked
    · rw [hflatten]
      exact hbelow

/-- A file of two chunks has been accepted and asked for. -/
def askedLink : Link :=
  Transition.runFrom Link.step {} (.map .bridge [.connect, .start (Jobs.moment 10) Jobs.smallOrder,
    Jobs.smallAccept 1, .tick (Jobs.moment 30) 0])

/-- Both chunks of a file of 128 bytes are asked for, and the host sends them in batches that the
bridge takes. -/
theorem chunks_agree_askedLink :
    ∃ batches, (({} : Client).start
        ⟨"start", 1, Octets.zero 6, 64, 2, 6⟩).sendChunks (List.replicate 128 0)
          askedLink.transport.otaChunkRequestId [0, 1] = some batches ∧
      (∀ b ∈ batches, b.chunks.length ≤ askedLink.transport.otaMaxChunksPerBatch) ∧
      batches.flatMap (fun b => b.chunks.map OtaChunk.sequence) = [0, 1] ∧
      askedLink.Takes (List.replicate 128 0) batches := by
  have hreach : askedLink.Reachable := by
    refine Transition.Reachable.runFrom (.start ⟨⟨{}, rfl⟩, rfl⟩) ?_
    exact ⟨trivial, trivial, trivial, trivial, trivial⟩
  exact chunks_agree hreach
    ⟨by decide +kernel, by decide +kernel, by decide +kernel, by decide +kernel⟩
    (by decide +kernel) (by decide +kernel) {} (by decide) (by decide +kernel) (by decide)

end Host

end EspTree
