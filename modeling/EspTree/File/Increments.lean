import EspTree.File.Rounds

/-!
# The increments of a transfer

The manager goes from one increment to the next until the last one, where it sends `END`.  Two
branches of `handle_gaps_ack_` advance the increment, and only the one for an empty bitmap looks whether
it is the last.

`increments_bounded` says that the increment and all sequence numbers stay within the file as long as
no bitmap shows all chunks of the last increment (`FullLast`), and `fullLast_overruns` that the increment
does not stay within the file when one does.

`Bounded` is the invariant: the increment that the manager is at is one of the file's, and the
sequence numbers of its target, its queue and its requests lie within it.  A call of the manager
keeps it unless it is the one that the condition excludes, and `bounded_advance` is the step from
one increment to the next.

The condition is about the acknowledgement, not about what the manager makes of it: it has a bitmap,
all bits of the increment are set in it, and the increment is the last one.
-/

namespace EspTree

open Wire Transfer OtaManager

/-! ## Geometry -/

namespace Geometry

/-- The increments lie within the file, and none of them is empty. -/
structure Fits (g : Geometry) : Prop where
  count_pos : 0 < g.totalIncrements
  count_lt : g.totalIncrements < 2 ^ 16
  within : ∀ k < g.totalIncrements, k * g.chunksPerIncrement + g.chunksInIncrement k ≤ g.totalChunks
  nonempty : ∀ k < g.totalIncrements, 0 < g.chunksInIncrement k

/-- Stored into 16 bits, a number does not become 0, nor larger than it was. -/
theorem truncOr_bounds {fallback x : Nat} (hx : 0 < x) (hpos : 0 < fallback) (hsmall : fallback < 2 ^ 16) :
    0 < truncOr fallback x ∧ truncOr fallback x ≤ x := by
  have hmod := Nat.mod_le x (2 ^ 16)
  unfold truncOr
  split
  · -- a multiple of 2 ^ 16
    omega
  · omega

/-- So it is for every file, also when the number of increments does not fit its field. -/
theorem ofTransfer_fits {fileSize chunkSize bufferKb : Nat} (hchunk : 0 < chunkSize) (hfile : 0 < fileSize)
    (hmax : fileSize < 2 ^ 32) : (ofTransfer fileSize chunkSize bufferKb).Fits := by
  obtain ⟨hcpi, hcpiMax⟩ := cpi_bounds fileSize chunkSize bufferKb
  have hcount := totalIncrements_lt fileSize chunkSize bufferKb
  set g := ofTransfer fileSize chunkSize bufferKb
  obtain ⟨hlower, -, htotal⟩ := divUp_bounds hchunk hfile
  have hword : g.totalChunks < 2 ^ 32 := by
    have hmul : divUp fileSize chunkSize - 1 ≤ (divUp fileSize chunkSize - 1) * chunkSize :=
      Nat.le_mul_of_pos_right _ hchunk
    change divUp fileSize chunkSize < 2 ^ 32
    omega
  obtain ⟨hbelow, -, hincrements⟩ := divUp_bounds hcpi htotal
  obtain ⟨hpos, hle⟩ : 0 < g.totalIncrements ∧
      g.totalIncrements ≤ divUp g.totalChunks g.chunksPerIncrement :=
    truncOr_bounds hincrements Nat.one_pos (by decide)
  -- the chunks before the last increment
  have hlast : (g.totalIncrements - 1) * g.chunksPerIncrement < g.totalChunks :=
    (Nat.mul_le_mul_right _ (Nat.sub_le_sub_right hle 1)).trans_lt hbelow
  obtain ⟨hrest, hrestMax⟩ : 0 < g.chunksInLastIncrement ∧ g.chunksInLastIncrement ≤
      g.totalChunks - (g.totalIncrements - 1) * g.chunksPerIncrement := by
    have hrest : g.chunksInLastIncrement = truncOr g.chunksPerIncrement
        (sub32 g.totalChunks ((g.totalIncrements - 1) * g.chunksPerIncrement)) := rfl
    rw [hrest, sub32_of_le hlast.le hword]
    exact truncOr_bounds (Nat.sub_pos_of_lt hlast) hcpi hcpiMax
  refine ⟨hpos, hcount, fun k hk => ?_, fun k hk => ?_⟩
  · unfold chunksInIncrement
    split
    next hend =>
      have hsame : k = g.totalIncrements - 1 := by omega
      rw [hsame]
      omega
    next hmore =>
      have hmul := Nat.mul_le_mul_right g.chunksPerIncrement (Nat.le_sub_one_of_lt (Nat.not_le.mp hmore))
      rw [Nat.succ_mul] at hmul
      omega
  · unfold chunksInIncrement
    split
    · exact hrest
    · exact hcpi

end Geometry

/-! ## Boards -/

namespace OtaManager.Board

/-- The increment and the gaps lie within the file, and a later round has gaps. -/
structure InFile (b : Board) : Prop where
  increment : b.currentIncrement < b.geometry.totalIncrements
  gaps : ∀ sequence ∈ b.gaps, sequence < b.geometry.totalChunks
  some : b.retransmitRound ≠ 0 → b.gaps.Nonempty

/-- The invariant of a transfer that has not gone past its last increment. -/
structure Bounded (b : Board) : Prop where
  size : b.state ≠ .idle → 0 < b.fileSize ∧ b.fileSize ≤ 2 ^ 30
  fresh : b.state = .announcing → b.gaps = ∅
  active : b.state = .blasting ∨ b.state = .waitingGaps → b.geometry.Fits ∧ b.InFile

variable {report? : Option (Board × Finset Nat)} {b b' : Board}

/-- The target of an open transfer lies within the file. -/
theorem target_lt (h : b.InFile) : ∀ sequence ∈ b.target, sequence < b.geometry.totalChunks := by
  intro sequence hmem
  unfold target at hmem
  split at hmem
  · exact ((Finset.mem_Ico.mp hmem).2).trans_le (Nat.min_le_right _ _)
  · exact h.gaps sequence hmem

/-- It is not empty. -/
theorem target_nonempty (hfits : b.geometry.Fits) (h : b.InFile) : b.target.Nonempty := by
  unfold target
  split
  · have hend := hfits.within b.currentIncrement h.increment
    have hpos := hfits.nonempty b.currentIncrement h.increment
    refine Finset.nonempty_Ico.mpr (Nat.lt_min.mpr ⟨?_, ?_⟩)
    · exact Nat.lt_add_of_pos_right hpos
    · exact (Nat.lt_add_of_pos_right hpos).trans_le hend
  next hround => exact h.some hround

/-- An increment that is not the last is followed by another one. -/
theorem bounded_advance (h : b.Bounded) (hs : b.state = .waitingGaps)
    (hmore : b.currentIncrement + 1 < b.geometry.totalIncrements) : b.advance.Bounded := by
  obtain ⟨hfits, -⟩ := h.active (.inr hs)
  have hcount := hfits.count_lt
  refine ⟨fun _ => h.size (by rw [hs]; decide), nofun, fun _ => ⟨hfits, ?_, nofun, fun h => absurd rfl h⟩⟩
  change (b.currentIncrement + 1) % 2 ^ 16 < b.geometry.totalIncrements
  rw [Nat.mod_eq_of_lt (by omega)]
  exact hmore

/-- In an open round only the places of the chunks change, until it is closed. -/
theorem Bounded.place (h : b.Bounded) (hs : b.state = .blasting) (line : Pipeline Nat) {state : State}
    (hstate : state = .blasting ∨ state = .waitingGaps) :
    ({ b with state, line } : Board).Bounded := by
  obtain ⟨hfits, hin⟩ := h.active (.inl hs)
  refine ⟨fun _ => h.size (by rw [hs]; decide), fun ha => ?_, fun _ => ⟨hfits, hin.increment, hin.gaps, hin.some⟩⟩
  change state = .announcing at ha
  rcases hstate with hb | hw
  · rw [ha] at hb
    cases hb
  · rw [ha] at hw
    cases hw

theorem Bounded.turn (h : b.Bounded) (hturn : Turn report? b b')
    (hfull : ∀ b, report? = some (b, ∅) → b.retransmitRound < maxRetransmitRounds →
      b.currentIncrement + 1 < b.geometry.totalIncrements) : b'.Bounded := by
  cases hturn with
  | reset => exact ⟨fun h => absurd rfl h, nofun, nofun⟩
  | announce fileSize _ hpos hmax =>
    exact ⟨fun _ => ⟨hpos, hmax⟩, fun _ => rfl, nofun⟩
  | accept chunkSize bufferKb hs hpos =>
    obtain ⟨hfile, hmax⟩ := h.size (by rw [hs]; decide)
    have hfits : (Geometry.ofTransfer b.fileSize chunkSize bufferKb).Fits :=
      Geometry.ofTransfer_fits hpos hfile (hmax.trans_lt (by decide))
    refine ⟨fun _ => ⟨hfile, hmax⟩, nofun, fun _ => ⟨hfits, hfits.count_pos, ?_, fun h => absurd rfl h⟩⟩
    change ∀ sequence ∈ b.gaps, _
    rw [h.fresh hs]
    exact nofun
  | take hs => exact h.place hs _ (.inl hs)
  | pop hs => exact h.place hs _ (.inl hs)
  | refill hs => exact h.place hs _ (.inl hs)
  | close hs => exact h.place hs _ (.inr rfl)
  | finish hs => exact ⟨fun _ => h.size (by rw [hs]; decide), nofun, nofun⟩
  | next hs hmore => exact bounded_advance h hs hmore
  | full hs hreport hrounds => exact bounded_advance h hs (hfull b hreport hrounds)
  | gaps hs _ hne hsub =>
    obtain ⟨hfits, hin⟩ := h.active (.inr hs)
    refine ⟨fun _ => h.size (by rw [hs]; decide), nofun, fun _ => ⟨hfits, hin.increment, ?_, fun _ => hne⟩⟩
    intro sequence hmem
    have hlt := (Finset.mem_Ico.mp (hsub hmem)).2
    exact hlt.trans_le (hfits.within b.currentIncrement hin.increment)

end OtaManager.Board

/-! ## Runs -/

namespace Rounds

/-- The call brings a `GAPS` acknowledgement that the manager waits for, about the last increment, with
a bitmap that shows all of its chunks. -/
def FullLast (s : State) (event : Event) : Prop :=
  s.reported? event = some ∅ ∧ s.manager.tracker.isLastIncrement = true ∧
    s.manager.tracker.retransmitRound < maxRetransmitRounds

instance (s : State) (event : Event) : Decidable (FullLast s event) :=
  inferInstanceAs (Decidable (_ ∧ _ ∧ _))

/-- The increment is one of the transfer, and all sequence numbers that the manager has asked for, that
wait or that are gaps belong to the file. -/
structure WithinFile (m : Manager) : Prop where
  increment : m.tracker.currentIncrement < m.tracker.geometry.totalIncrements
  requested : ∀ sequence ∈ m.tracker.requestedSequences, sequence < m.tracker.geometry.totalChunks
  pending : ∀ chunk ∈ m.pendingChunks, chunk.sequence < m.tracker.geometry.totalChunks
  gaps : ∀ sequence ∈ m.tracker.gapSequences, sequence < m.tracker.geometry.totalChunks

/-- The runs in which no bitmap shows all chunks of the last increment. -/
abbrev ReachableBelow : State → Prop :=
  Transition.Reachable Initial (fun s event => ¬ FullLast s event) step

theorem bounded_of_reachable {s : State} (hs : ReachableBelow s) : s.manager.board.Bounded := by
  refine hs.invariant (I := fun s => s.manager.board.Bounded) ?_ ?_
  · rintro s ⟨config, rfl⟩
    exact ⟨fun h => absurd rfl h, nofun, nofun⟩
  · intro s event hbounded hok
    refine Transition.steps_invariant (step_turns s event) (fun b b' hb hturn _ => hb.turn hturn ?_)
      hbounded
    intro b hreport hrounds
    obtain ⟨missing, hmissing, heq⟩ := Option.map_eq_some_iff.mp hreport
    obtain ⟨rfl, rfl⟩ := Prod.mk.inj heq
    by_contra hlast
    exact hok ⟨hmissing, decide_eq_true (Nat.not_lt.mp hlast), hrounds⟩

/-- As long as no bitmap shows all chunks of the last increment, a manager that sends chunks or
waits for gaps stays within the file, and its round has something to send.  A bitmap without gaps
takes the manager to the next increment, and `handle_gaps_` does not look whether there is one. -/
theorem increments_bounded {s : State} (hs : ReachableBelow s)
    (hopen : s.manager.state = .blasting ∨ s.manager.state = .waitingGaps) :
    WithinFile s.manager ∧ s.target.Nonempty := by
  obtain ⟨hfits, hin⟩ := (bounded_of_reachable hs).active hopen
  have hinv : Inv s := (hs.mono fun _ _ _ => trivial).invariant (fun _ => Inv.initial)
    fun _ event h _ => h.step event
  have hline : ∀ sequence, sequence ∈ s.manager.line.asked ∨ sequence ∈ s.manager.line.queued →
      sequence < s.manager.tracker.geometry.totalChunks := by
    intro sequence hmem
    rcases hopen with hb | hw
    · refine Board.target_lt hin sequence (((hinv.round.blasting hb).mem_iff sequence).mpr ?_)
      exact hmem.imp_right .inl
    · obtain ⟨hasked, hqueued, -⟩ := hinv.round.waiting hw
      rcases hmem with hmem | hmem
      · change sequence ∈ s.manager.board.line.asked at hmem
        rw [hasked] at hmem
        exact absurd hmem (Finset.notMem_empty sequence)
      · change sequence ∈ s.manager.board.line.queued at hmem
        rw [hqueued] at hmem
        cases hmem
  constructor
  · refine ⟨hin.increment, fun n hn => hline n (.inl hn), fun chunk hchunk => ?_, hin.gaps⟩
    exact hline chunk.sequence (.inr (List.mem_map_of_mem hchunk))
  · rw [← hinv.target_eq]
    exact Board.target_nonempty hfits hin

/-- Each such bitmap takes the manager past the last increment, where it has nothing to send. -/
theorem fullLast_overruns {s : State} {event : Event} (hfull : FullLast s event)
    (hwithin : WithinFile s.manager) (hcount : s.manager.tracker.geometry.totalIncrements < 2 ^ 16) :
    (step s event).manager.state = .blasting ∧
      (step s event).manager.tracker.currentIncrement =
        (step s event).manager.tracker.geometry.totalIncrements := by
  obtain ⟨hreported, hlast, hrounds⟩ := hfull
  cases event with
  | fileAck e leafMac ackType result ref trailing =>
    obtain ⟨-, hgaps, hsame⟩ := s.manager.onFileAck_of_reported (managerContext e) s.frames hreported
    have hboard : (step s (.fileAck e leafMac ackType result ref trailing)).manager.board =
        s.manager.board.advance := by
      change (s.manager.onFileAck (managerContext e) s.frames leafMac ackType result ref
        trailing).1.1.board = _
      rw [hsame]
      rcases (s.manager.noteActivity (managerContext e)).handleGapsAck_of_gapsIn (managerContext e)
        s.frames hgaps with ⟨-, hmax⟩ | ⟨-, ⟨-, hadvance⟩ | ⟨hne, -⟩⟩
      · exact absurd hrounds (Nat.not_lt.mpr hmax)
      · exact hadvance
      · exact absurd rfl hne
    have hend : s.manager.tracker.currentIncrement + 1 = s.manager.tracker.geometry.totalIncrements := by
      have hlt := hwithin.increment
      have hle : _ ≤ _ := of_decide_eq_true hlast
      omega
    refine ⟨congrArg Board.state hboard, ?_⟩
    refine (congrArg Board.currentIncrement hboard).trans
      (Eq.trans ?_ (congrArg (fun b => b.geometry.totalIncrements) hboard).symm)
    change (s.manager.tracker.currentIncrement + 1) % 2 ^ 16 = s.manager.tracker.geometry.totalIncrements
    rw [hend, Nat.mod_eq_of_lt hcount]
  | start => cases hreported
  | sourceChunk => cases hreported
  | sourceAbort => cases hreported
  | loop => cases hreported

/-- A file of one chunk, to the moment when the leaf has to answer the `BLAST_COMPLETE`. -/
def oneChunk : List Event :=
  [.start (moment 10) (Octets.zero 6) 64 (Octets.zero 16) 0x01 250 (Octets.zero 12),
    .fileAck (moment 20) (Octets.zero 6) PacketType.fileTransfer.code 0x00 1 [64, 0, 8, 0x01],
    .sourceChunk 0 (List.replicate 64 0), .loop (moment 30)]

/-- The leaf shows its only chunk in a bitmap instead of sending none. -/
def fullBitmap : Event :=
  .fileAck (moment 40) (Octets.zero 6) PacketType.fileTransfer.code 0x05 3 [1, 0, 0xFF]

/-- After a bitmap that shows all of the last increment the manager blasts an increment that the
file does not have. -/
theorem increments_fullBitmap :
    let s := Transition.runFrom step { manager := {} } (oneChunk ++ [fullBitmap])
    Reachable s ∧ s.manager.state = .blasting ∧ ¬ WithinFile s.manager := by
  refine ⟨(Transition.Reachable.start ⟨{}, rfl⟩).runFrom ?_, by decide +kernel, fun h => ?_⟩
  · exact ⟨trivial, trivial, trivial, trivial, trivial, trivial⟩
  · exact absurd h.increment (by decide +kernel)

/-- Before that it has not left the file. -/
theorem increments_bounded_oneChunk :
    let s := Transition.runFrom step { manager := {} } oneChunk
    s.manager.state = .waitingGaps ∧ WithinFile s.manager ∧ s.target.Nonempty := by
  have hadmits : Transition.Admits (fun s event => ¬ FullLast s event) step { manager := {} } oneChunk := by
    decide +kernel
  have hstate : (Transition.runFrom step { manager := {} } oneChunk).manager.state = .waitingGaps := by
    decide +kernel
  exact ⟨hstate, increments_bounded ((Transition.Reachable.start ⟨{}, rfl⟩).runFrom hadmits) (.inr hstate)⟩

end Rounds

end EspTree
