import EspTree.Remote.Moves
import EspTree.Remote.Senders

/-!
# The leaf: what a call does to the heartbeat

A call into a leaf keeps `heartbeat_due_ms_`, unsets it, sets it from the present time, or makes the leaf
leave its session.  `loop_turn` and `onFrame_turn` go through the code once and say which, and whether a
heartbeat was sent.

`Keeps` is the relation of a step that sends no heartbeat and leaves the due time alone, `Leaves`
that of a step after which the leaf is not normal, and `Part` and `Turn` are what a part of the loop
and a whole call can be.  Most functions are `Keeps`, and for those that are built on the senders it
follows from `SendClosed`.

`loopBeforeHeartbeat` is the loop up to the heartbeat.  Whether a call gets there does not depend on
the time that is due, so `loop_eq` splits the loop in two, and each half has its own lemma.
-/

namespace EspTree

open Wire FileReceiver

def Effect.isHeartbeat : Effect → Bool
  | .encrypt type .. => type == .heartbeat
  | _ => false

namespace Remote

variable {η : Type}

/-! ## The loop around its heartbeat -/

/-- Run the rest of a part of the loop unless the call has returned. -/
def thenPart (r : Remote η × Bool) (rest : Remote η → Remote η × Bool) : Remote η × Bool :=
  if r.2 then r else rest r.1

/-- The loop up to the point where it looks at the heartbeat, and whether it has returned before. -/
def loopBeforeHeartbeat (P : Platform η) (e : Env) (s : Remote η) : Remote η × Bool :=
  thenPart ((s.housekeeping P e).loopStart P e) fun s =>
  thenPart (s.loopWeakLink e) fun s =>
  thenPart (s.loopPreferred e) fun s =>
  thenPart (s.loopResume P e) fun s =>
  thenPart (s.loopJoin P e) fun s =>
  thenPart (s.loopSweep P e) fun s =>
  let s := s.loopJoinExhausted P e
  if s.session.joined then
    thenPart (s.loopStalled P e) fun s =>
    thenPart (s.loopStateAck P e) fun s => (s, !s.entities.statePushEnabled)
  else (s, true)

/-- The heartbeat is not due: at most its time is set. -/
def awaitHeartbeat (e : Env) (s : Remote η) : Remote η :=
  if s.session.normal then { s with timers := { s.timers with heartbeatDueMs := s.heartbeatDue e } } else s

/-- The parts of the loop can be grouped in two ways. -/
theorem andThen_thenPart (r : Remote η × Bool) (part : Remote η → Remote η × Bool)
    (rest : Remote η → Remote η) :
    andThen (thenPart r part) rest = andThen r fun s => andThen (part s) rest := by
  obtain ⟨t, returned⟩ := r
  cases returned <;> rfl

theorem andThen_if (s : Remote η) (condition : Prop) [Decidable condition] (r : Remote η × Bool)
    (rest : Remote η → Remote η) :
    andThen (if condition then r else (s, true)) rest = if condition then andThen r rest else s := by
  split <;> rfl

theorem andThen_unless (s : Remote η) (stop : Bool) (rest : Remote η → Remote η) :
    andThen (s, !stop) rest = if ¬ stop then s else rest s := by
  cases stop <;> rfl

/-- The loop is what comes before the heartbeat, the heartbeat, and the states. -/
theorem loop_eq (P : Platform η) (e : Env) (s : Remote η) :
    s.loop P e = andThen (s.loopBeforeHeartbeat P e) fun s =>
      andThen (s.loopHeartbeat P e) fun s => s.pushDirtyState P e := by
  unfold loop loopBeforeHeartbeat
  simp only [andThen_thenPart, andThen_if, andThen_unless]
  rfl

/-! ## Heartbeats among the effects -/

/-- How many heartbeats were encrypted and then taken by the radio. -/
def heartbeatsSent : List Effect → Nat
  | .send _ _ true :: .encrypt .heartbeat _ _ _ :: past => heartbeatsSent past + 1
  | _ :: past => heartbeatsSent past
  | [] => 0

/-- What a call has done: the effects that were not there before. -/
def newEffects (s t : Remote η) : List Effect :=
  t.radio.effects.take (t.radio.effects.length - s.radio.effects.length)

/-- A call has sent a heartbeat. -/
def sendsHeartbeat (s t : Remote η) : Bool := 0 < heartbeatsSent (newEffects s t)

/-- A call leaves alone what the heartbeat depends on, starts no search, and encrypts no heartbeat. -/
structure Keeps (s t : Remote η) : Prop where
  due : t.timers.heartbeatDueMs = s.timers.heartbeatDueMs
  interval : t.timers.heartbeatInterval = s.timers.heartbeatInterval
  normal : t.session.normal = s.session.normal
  search : t.discovery.discovering → s.discovery.discovering
  silent : ∃ new, t.radio.effects = new ++ s.radio.effects ∧ ∀ eff ∈ new, eff.isHeartbeat = false

section

variable {P : Platform η} {e : Env} {s t u : Remote η}

theorem newEffects_eq {new : List Effect} (h : t.radio.effects = new ++ s.radio.effects) :
    newEffects s t = new := by
  unfold newEffects
  rw [h, List.length_append, Nat.add_sub_cancel, List.take_left]

theorem heartbeatsSent_of_silent {effects : List Effect} (h : ∀ eff ∈ effects, eff.isHeartbeat = false) :
    heartbeatsSent effects = 0 := by
  fun_induction heartbeatsSent effects with
  | case1 mac frame key tx text past ih =>
    have hbeat := h (.encrypt .heartbeat key tx text) (List.mem_cons_of_mem _ List.mem_cons_self)
    cases hbeat
  | case2 first past _ ih => exact ih fun eff heff => h eff (List.mem_cons_of_mem _ heff)
  | case3 => rfl

/-- A step that keeps the due time sends no heartbeat. -/
theorem Keeps.quiet (h : s.Keeps t) : sendsHeartbeat s t = false := by
  obtain ⟨new, hnew, hsilent⟩ := h.silent
  unfold sendsHeartbeat
  rw [newEffects_eq hnew, heartbeatsSent_of_silent hsilent]
  rfl

theorem Keeps.refl (s : Remote η) : s.Keeps s := ⟨rfl, rfl, rfl, id, [], rfl, nofun⟩

/-- Two steps that keep the due time keep it together. -/
theorem Keeps.trans (h : s.Keeps t) (h' : t.Keeps u) : s.Keeps u := by
  obtain ⟨new, hnew, hsilent⟩ := h.silent
  obtain ⟨new', hnew', hsilent'⟩ := h'.silent
  refine ⟨h'.due.trans h.due, h'.interval.trans h.interval, h'.normal.trans h.normal,
    h.search ∘ h'.search, new' ++ new, ?_, ?_⟩
  · rw [hnew', hnew, List.append_assoc]
  · intro eff heff
    exact (List.mem_append.1 heff).elim (hsilent' eff) (hsilent eff)

theorem Keeps.of_steps (h : Relation.ReflTransGen Keeps s t) : s.Keeps t := by
  induction h with
  | refl => exact .refl s
  | tail _ hstep ih => exact ih.trans hstep

theorem Keeps.note (s : Remote η) {eff : Effect} (heff : eff.isHeartbeat = false) : s.Keeps (s.note eff) :=
  ⟨rfl, rfl, rfl, id, [eff], rfl, by simpa using heff⟩

/-- The effects stay as they are, and so do the four fields. -/
theorem Keeps.fields (heff : t.radio.effects = s.radio.effects)
    (hdue : t.timers.heartbeatDueMs = s.timers.heartbeatDueMs)
    (hinterval : t.timers.heartbeatInterval = s.timers.heartbeatInterval)
    (hnormal : t.session.normal = s.session.normal)
    (hsearch : t.discovery.discovering → s.discovery.discovering) : s.Keeps t :=
  ⟨hdue, hinterval, hnormal, hsearch, [], heff, nofun⟩

theorem Keeps.before (h : t.Keeps u) (heff : t.radio.effects = s.radio.effects)
    (hdue : t.timers.heartbeatDueMs = s.timers.heartbeatDueMs)
    (hinterval : t.timers.heartbeatInterval = s.timers.heartbeatInterval)
    (hnormal : t.session.normal = s.session.normal)
    (hsearch : t.discovery.discovering → s.discovery.discovering) : s.Keeps u :=
  (Keeps.fields heff hdue hinterval hnormal hsearch).trans h

theorem Keeps.after (h : s.Keeps t) (heff : u.radio.effects = t.radio.effects)
    (hdue : u.timers.heartbeatDueMs = t.timers.heartbeatDueMs)
    (hinterval : u.timers.heartbeatInterval = t.timers.heartbeatInterval)
    (hnormal : u.session.normal = t.session.normal)
    (hsearch : u.discovery.discovering → t.discovery.discovering) : s.Keeps u :=
  h.trans (.fields heff hdue hinterval hnormal hsearch)

/-! ## Sending -/

/-- To hand a frame to the radio is no heartbeat: what is counted is the encryption. -/
theorem transmit_keeps (s : Remote η) (mac : Mac) (frame : Frame) : s.Keeps (s.transmit e mac frame).1 :=
  ⟨rfl, rfl, rfl, id, [_], rfl, by simp [Effect.isHeartbeat]⟩

theorem sendPlain_keeps (s : Remote η) (mac : Mac) (type : PacketType) (hop : UInt8) (tx : UInt32)
    (payload : Bytes) : s.Keeps (s.sendPlain P e mac type hop tx payload).1 := transmit_keeps s _ _

theorem sendSealed_keeps (s : Remote η) (mac : Mac) {type : PacketType} (hop : UInt8) (tx : UInt32)
    (plaintext : Bytes) (htype : type ≠ .heartbeat) :
    s.Keeps (s.sendSealed P e mac type hop tx plaintext).1 := by
  unfold sendSealed
  split
  · exact .refl s
  split
  · exact .refl s
  · refine (Keeps.note s ?_).trans (transmit_keeps _ _ _)
    simpa [Effect.isHeartbeat] using htype

theorem bumpTxCounter_keeps (s : Remote η) : s.Keeps s.bumpTxCounter := .fields rfl rfl rfl rfl id

theorem sendUp_keeps (s : Remote η) {type : PacketType} (plaintext : Bytes) (htype : type ≠ .heartbeat) :
    s.Keeps (s.sendUp P e type plaintext).1 :=
  (bumpTxCounter_keeps s).trans (sendSealed_keeps _ _ _ _ _ htype)

theorem sendUpTracked_keeps (s : Remote η) {type : PacketType} (plaintext : Bytes)
    (htype : type ≠ .heartbeat) : s.Keeps (s.sendUpTracked P e type plaintext).1 := by
  unfold sendUpTracked
  dsimp only
  split
  · exact bumpTxCounter_keeps s
  · exact (sendSealed_keeps _ _ _ _ _ htype).before rfl rfl rfl rfl id

theorem setRecord_keeps (s : Remote η) (index : UInt8) (f : EntityRecord → EntityRecord) :
    s.Keeps (s.setRecord index f) := .fields rfl rfl rfl rfl id

theorem stateSendFailed_keeps (s : Remote η) (index : UInt8) : s.Keeps (s.stateSendFailed e index) :=
  .fields rfl rfl rfl rfl id

/-- What keeps the heartbeat is closed under sending. -/
theorem Keeps.sendClosed : SendClosed P e Keeps where
  refl := .refl
  trans := .trans
  ack s plaintext := sendUpTracked_keeps s plaintext nofun
  state s plaintext := sendUpTracked_keeps s plaintext nofun
  schemaPush s plaintext := sendUp_keeps s plaintext nofun
  failed := stateSendFailed_keeps
  remembered s index value _ base reset :=
    (Keeps.note (s.rememberState e index value base reset) rfl).before rfl rfl rfl rfl id

theorem sendIdentityDescriptor_keeps (s : Remote η) : s.Keeps (s.sendIdentityDescriptor P e).1 := by
  unfold sendIdentityDescriptor
  split
  · exact .refl s
  · exact (sendUp_keeps _ _ (show PacketType.schemaPush ≠ .heartbeat from nofun)).before rfl rfl rfl rfl id

theorem sendJoin_keeps (s : Remote η) : s.Keeps (s.sendJoin P e).1 := by
  unfold sendJoin
  split
  · exact .refl s
  · exact ((sendPlain_keeps _ _ _ _ _ _).before rfl rfl rfl rfl id).after rfl rfl rfl rfl id

theorem abortFiles_keeps (s : Remote η) (reason : UInt8) (notifySender : Bool) :
    s.Keeps (s.abortFiles P e reason notifySender) :=
  (Keeps.of_steps (Receiver.abort_owner (x := fileContext P e)
    (fun p _ => .single (Keeps.sendClosed.sendAck p _ 0)) s.files s reason notifySender)).after rfl rfl rfl rfl id

/-- The leaf is not normal any more; its interval stays. -/
structure Leaves (s t : Remote η) : Prop where
  normal : t.session.normal = false
  interval : t.timers.heartbeatInterval = s.timers.heartbeatInterval

/-- A leaf that leaves its session after a quiet step has left it. -/
theorem Leaves.before (h : t.Leaves u) (hkeeps : s.Keeps t) : s.Leaves u :=
  ⟨h.normal, h.interval.trans hkeeps.interval⟩

theorem clearSessionState_leaves (s : Remote η) (preserveRoute : Bool) :
    s.Leaves (s.clearSessionState P e preserveRoute) := by
  refine ⟨rfl, ?_⟩
  unfold clearSessionState
  dsimp only
  split
  · exact (abortFiles_keeps s abortSessionLost false).interval
  · rfl

theorem startDiscoveryCycle_leaves (s : Remote η) (nonce : Nonce) (wifiWaitExpired : Bool) :
    s.Leaves (s.startDiscoveryCycle P e nonce wifiWaitExpired) :=
  ⟨rfl, (clearSessionState_leaves s false).interval⟩

theorem Leaves.setDiscoverDue (h : s.Leaves t) (dueMs : UInt32) : s.Leaves (t.setDiscoverDue dueMs) :=
  ⟨h.normal, h.interval⟩

theorem startRouteRecoveryCycle_leaves (s : Remote η) : s.Leaves (s.startRouteRecoveryCycle e) := ⟨rfl, rfl⟩

theorem rejoinDueToTransmitStall_leaves (s : Remote η) (noOutboundProgress : Bool) :
    s.Leaves (s.rejoinDueToTransmitStall P e noOutboundProgress) := by
  cases noOutboundProgress with
  | false => exact startRouteRecoveryCycle_leaves s
  | true => exact ⟨rfl, (clearSessionState_leaves s true).interval⟩

/-! ## The parts of the loop -/

/-- What a part of the loop does: it keeps what the heartbeat depends on, or the call ends and the leaf is
not normal, or the call ends with the heartbeat that resumes the traffic after a search. -/
inductive Part (P : Platform η) (e : Env) (s : Remote η) : Remote η × Bool → Prop
  | keeps {t : Remote η} {returned : Bool} (h : s.Keeps t) : Part P e s (t, returned)
  | left {t : Remote η} (h : s.Leaves t) : Part P e s (t, true)
  | resumed {t : Remote η} (h : s.Keeps t) (hsearch : t.discovery.discovering) :
      Part P e s (((t.adopted true).sendHeartbeat P e).1, true)

/-- The parts of the loop before the heartbeat end it, leave the session, or keep the due time. -/
theorem Part.then {r : Remote η × Bool} {rest : Remote η → Remote η × Bool} (h : Part P e s r)
    (hrest : ∀ t, s.Keeps t → Part P e t (rest t)) : Part P e s (thenPart r rest) := by
  cases h with
  | left h => exact .left h
  | resumed h hsearch => exact .resumed h hsearch
  | @keeps t returned h =>
    cases returned with
    | true => exact .keeps h
    | false =>
      show Part P e s (rest t)
      have hpart := hrest t h
      generalize rest t = r at hpart ⊢
      cases hpart with
      | keeps h' => exact .keeps (h.trans h')
      | left h' => exact .left (h'.before h)
      | resumed h' hsearch => exact .resumed (h.trans h') hsearch

theorem loopFiles_keeps (s : Remote η) : s.Keeps (s.loopFiles P e) := by
  have hloop := Keeps.of_steps (Receiver.loop_owner (x := fileContext P e)
    (fun p _ => .single (Keeps.sendClosed.sendAck p _ 0)) s.files s)
  unfold loopFiles
  dsimp only
  generalize s.files.loop (fileContext P e) s = o at hloop ⊢
  obtain ⟨files, t⟩ := o
  split
  · split
    · exact hloop.after rfl rfl rfl rfl id
    · split
      · have habort := abortFiles_keeps (P := P) (e := e) { t with files := files } abortSessionLost true
        exact (hloop.trans (habort.before rfl rfl rfl rfl id)).after rfl rfl rfl rfl id
      · exact hloop.after rfl rfl rfl rfl id
  · exact hloop.after rfl rfl rfl rfl id

theorem flushPendingDiscoverAnnounce_keeps (s : Remote η) :
    s.Keeps (s.flushPendingDiscoverAnnounce P e) := by
  unfold flushPendingDiscoverAnnounce
  split
  · exact .refl s
  · split
    · exact .refl s
    · exact (Keeps.note s rfl).after rfl rfl rfl rfl id

theorem housekeeping_keeps (s : Remote η) : s.Keeps (s.housekeeping P e) := by
  have hprune : s.Keeps ((s.pruneRoutes e).prunePendingCommandFragments e) := .fields rfl rfl rfl rfl id
  exact hprune.trans ((loopFiles_keeps _).trans (flushPendingDiscoverAnnounce_keeps _))

theorem loopStart_part (s : Remote η) : Part P e s (s.loopStart P e) := by
  unfold loopStart
  split
  · exact .left ⟨rfl, (startDiscoveryCycle_leaves { s with
      discovery := { s.discovery with initialPending := false } } _ _).interval⟩
  · split
    · split
      · exact .left (startDiscoveryCycle_leaves s _ _)
      · exact .keeps (.refl s)
    · exact .keeps (.refl s)

theorem loopTopology_part (s : Remote η) (wanted : Bool) : Part P e s (s.loopTopology e wanted) := by
  unfold loopTopology
  split
  · dsimp only
    split
    · exact .left ⟨rfl, rfl⟩
    · exact .keeps (.fields rfl rfl rfl rfl id)
  · exact .keeps (.refl s)

theorem loopResume_part (s : Remote η) : Part P e s (s.loopResume P e) := by
  unfold loopResume
  split
  next h =>
    unfold adoptBestParentCandidate
    rw [if_neg (not_not.2 h.2.2.1)]
    exact .resumed (.refl s) h.1
  · exact .keeps (.refl s)

theorem loopJoin_part (s : Remote η) : Part P e s (s.loopJoin P e) := by
  unfold loopJoin
  split
  · exact .keeps ((sendJoin_keeps _).before rfl rfl rfl rfl id)
  · exact .keeps (.refl s)

theorem sendDiscover_keeps (s : Remote η) : s.Keeps (s.sendDiscover P e).1 := by
  obtain ⟨hdisc, -⟩ := nextProbe_flags (e := e) s.discovery s.route.bestParent.valid
  have hprobe : s.Keeps { s with discovery := (s.discovery.nextProbe e s.route.bestParent.valid).1 } :=
    .fields rfl rfl rfl rfl fun h => hdisc ▸ h
  unfold sendDiscover
  dsimp only
  split
  · refine hprobe.trans ?_
    unfold sendOnChannel
    exact (sendPlain_keeps _ _ _ _ _ _).after rfl rfl rfl rfl id
  · exact hprobe

theorem loopSweep_part (s : Remote η) : Part P e s (s.loopSweep P e) := by
  unfold loopSweep
  split
  · split
    · exact .keeps (.fields rfl rfl rfl rfl id)
    · exact .keeps (sendDiscover_keeps s)
  · exact .keeps (.refl s)

theorem loopStalled_part (s : Remote η) : Part P e s (s.loopStalled P e) := by
  unfold loopStalled
  split
  · have hcycle := startDiscoveryCycle_leaves (P := P) (e := e) (s.clearSessionState P e false) (e.nonce 1) false
    have hleaves : s.Leaves _ := ⟨hcycle.normal, hcycle.interval.trans (clearSessionState_leaves s false).interval⟩
    exact .left (hleaves.setDiscoverDue _)
  split
  · exact .left (rejoinDueToTransmitStall_leaves s false)
  split
  · exact .left (rejoinDueToTransmitStall_leaves s false)
  split
  · exact .left (rejoinDueToTransmitStall_leaves s true)
  · exact .keeps (.refl s)

theorem loopStateAck_part (s : Remote η) : Part P e s (s.loopStateAck P e) := by
  unfold loopStateAck
  split
  · split
    · split
      · have hsend := (Keeps.sendClosed (P := P) (e := e)).sendState s s.entities.pendingStateFieldIndex
          s.entities.pendingStateValue false
        unfold retryState
        generalize s.sendState P e s.entities.pendingStateFieldIndex s.entities.pendingStateValue false =
          o at hsend ⊢
        obtain ⟨t, sent⟩ := o
        cases sent <;> exact .keeps (hsend.after rfl rfl rfl rfl id)
      · exact .keeps (.refl s)
    · exact .left ⟨rfl, rfl⟩
  · exact .keeps (.refl s)

/-- After a join that was given up the leaf is not joined, and the loop ends. -/
theorem loopJoinExhausted_cases (s : Remote η) :
    s.loopJoinExhausted P e = s ∨ (s.loopJoinExhausted P e).session.joined = false ∧
      s.Leaves (s.loopJoinExhausted P e) := by
  unfold loopJoinExhausted
  split
  · exact .inr ⟨rfl, (startDiscoveryCycle_leaves s _ _).setDiscoverDue _⟩
  · exact .inl rfl

theorem loopBeforeHeartbeat_part (s : Remote η) : Part P e s (s.loopBeforeHeartbeat P e) := by
  unfold loopBeforeHeartbeat
  have hfirst : Part P e s ((s.housekeeping P e).loopStart P e) := by
    have hpart := loopStart_part (P := P) (e := e) (s.housekeeping P e)
    generalize (s.housekeeping P e).loopStart P e = r at hpart ⊢
    cases hpart with
    | keeps h => exact .keeps ((housekeeping_keeps s).trans h)
    | left h => exact .left (h.before (housekeeping_keeps s))
    | resumed h hsearch => exact .resumed ((housekeeping_keeps s).trans h) hsearch
  refine hfirst.then fun s _ => (loopTopology_part s _).then fun s _ => (loopTopology_part s _).then fun s _ =>
    (loopResume_part s).then fun s _ => (loopJoin_part s).then fun s _ => (loopSweep_part s).then fun s _ => ?_
  dsimp only
  obtain hsame | ⟨hjoined, hleaves⟩ := loopJoinExhausted_cases (P := P) (e := e) s
  · rw [hsame]
    split
    · exact (loopStalled_part s).then fun s _ => (loopStateAck_part s).then fun s _ => .keeps (.refl s)
    · exact .keeps (.refl s)
  · rw [if_neg (by rw [hjoined]; exact Bool.false_ne_true)]
    exact .left hleaves

theorem pushDirtyState_keeps (s : Remote η) : s.Keeps (s.pushDirtyState P e) := by
  unfold pushDirtyState
  split
  · exact .refl s
  split
  · exact .refl s
  next record hrecord =>
    have hsend := (Keeps.sendClosed (P := P) (e := e)).sendState s record.schema.entityIndex record.currentValue true
    generalize s.sendState P e record.schema.entityIndex record.currentValue true = o at hsend ⊢
    obtain ⟨t, sent⟩ := o
    cases sent with
    | true => exact hsend.after rfl rfl rfl rfl id
    | false => exact hsend

/-! ## One heartbeat -/

/-- A heartbeat was tried, and the time of the next one is set. -/
structure Beats (e : Env) (s t : Remote η) (sent : Bool) : Prop where
  due : t.timers.heartbeatDueMs =
    e.now + if sent then UInt32.ofNat s.timers.heartbeatInterval * 1000 else 1000
  interval : t.timers.heartbeatInterval = s.timers.heartbeatInterval
  sends : ∃ new, t.radio.effects = new ++ s.radio.effects ∧
    ∀ past, (∀ eff ∈ past, eff.isHeartbeat = false) → decide (0 < heartbeatsSent (new ++ past)) = sent

/-- A step that beats has sent a heartbeat or has not, as it says. -/
theorem Beats.sent_iff {sent : Bool} (h : Beats e s t sent) : sendsHeartbeat s t = sent := by
  obtain ⟨new, hnew, hsent⟩ := h.sends
  unfold sendsHeartbeat
  rw [newEffects_eq hnew, ← hsent [] nofun, List.append_nil]

theorem Beats.before {sent : Bool} (h : Beats e t u sent)
    (hinterval : t.timers.heartbeatInterval = s.timers.heartbeatInterval)
    (hsilent : ∃ new, t.radio.effects = new ++ s.radio.effects ∧ ∀ eff ∈ new, eff.isHeartbeat = false) :
    Beats e s u sent := by
  obtain ⟨new, hnew, hsilent⟩ := hsilent
  obtain ⟨new', hnew', hsent⟩ := h.sends
  refine ⟨hinterval ▸ h.due, h.interval.trans hinterval, new' ++ new, ?_, fun past hpast => ?_⟩
  · rw [hnew', hnew, List.append_assoc]
  · rw [List.append_assoc]
    refine hsent (new ++ past) fun eff heff => ?_
    exact (List.mem_append.1 heff).elim (hsilent eff) (hpast eff)

/-- A heartbeat counts as sent if the radio took its frame. -/
theorem heartbeatsSent_send (mac : Mac) (frame : Bytes) (sent : Bool) (key : SessionKey) (tx : UInt32)
    (text : Bytes) {past : List Effect} (hpast : ∀ eff ∈ past, eff.isHeartbeat = false) :
    decide (0 < heartbeatsSent (.send mac frame sent :: .encrypt .heartbeat key tx text :: past)) = sent := by
  have hnone := heartbeatsSent_of_silent hpast
  cases sent with
  | true => simp [heartbeatsSent]
  | false => simp [heartbeatsSent, hnone]

theorem sendUp_heartbeat (s : Remote η) (plaintext : Bytes) :
    ∃ r sent new, s.sendUp P e .heartbeat plaintext = ({ s with radio := r }, sent) ∧
      r.effects = new ++ s.radio.effects ∧
      ∀ past, (∀ eff ∈ past, eff.isHeartbeat = false) → decide (0 < heartbeatsSent (new ++ past)) = sent := by
  have hnone (past : List Effect) (hpast : ∀ eff ∈ past, eff.isHeartbeat = false) :
      decide (0 < heartbeatsSent ([] ++ past)) = false := by
    rw [List.nil_append, heartbeatsSent_of_silent hpast]
    rfl
  unfold sendUp sendSealed
  split
  · exact ⟨_, false, [], rfl, rfl, hnone⟩
  split
  · exact ⟨_, false, [], rfl, rfl, hnone⟩
  · exact ⟨_, _, [_, _], rfl, rfl, fun past hpast => heartbeatsSent_send _ _ _ _ _ _ hpast⟩

/-- After a heartbeat the next one is due in an interval, after a failed one in a second. -/
theorem afterHeartbeat_due (t : Timers) (sent : Bool) :
    (t.afterHeartbeat e sent).heartbeatDueMs =
      e.now + if sent then UInt32.ofNat t.heartbeatInterval * 1000 else 1000 := by
  cases sent with
  | true => rw [if_pos rfl]; rfl
  | false => rw [if_neg Bool.false_ne_true]; rfl

theorem afterHeartbeat_interval (t : Timers) (sent : Bool) :
    (t.afterHeartbeat e sent).heartbeatInterval = t.heartbeatInterval := by
  unfold Timers.afterHeartbeat
  split <;> rfl

/-- The heartbeat of a normal leaf is encrypted once, whether it goes out or not. -/
theorem sendHeartbeat_sends (s : Remote η)
    (hready : ¬ (¬ s.session.joined ∨ ¬ s.route.parentValid ∨ ¬ s.session.normal)) :
    Beats e s (s.sendHeartbeat P e).1 (s.sendHeartbeat P e).2 ∧
      ∃ t r, (s.sendHeartbeat P e).1 = { s with timers := t, radio := r } := by
  unfold sendHeartbeat
  rw [if_neg hready]
  obtain ⟨r, sent, new, hsend, hnew, hcount⟩ := sendUp_heartbeat (P := P) (e := e) s (s.heartbeat e).bytes
  rw [hsend]
  dsimp only
  exact ⟨⟨afterHeartbeat_due s.timers sent, afterHeartbeat_interval s.timers sent, new, hnew, hcount⟩, _, r, rfl⟩

/-- `send_heartbeat_` gives up at once, or sets the time of the next heartbeat. -/
theorem sendHeartbeat_cases (s : Remote η) :
    s.sendHeartbeat P e = (s, false) ∨ Beats e s (s.sendHeartbeat P e).1 (s.sendHeartbeat P e).2 ∧
      ∃ t r, (s.sendHeartbeat P e).1 = { s with timers := t, radio := r } := by
  by_cases hready : ¬ s.session.joined ∨ ¬ s.route.parentValid ∨ ¬ s.session.normal
  · left
    unfold sendHeartbeat
    rw [if_pos hready]
  · exact .inr (sendHeartbeat_sends s hready)

/-! ## Received frames -/

/-- The time of the next heartbeat and the interval are set. -/
def setDue (s : Remote η) (due : UInt32) (interval : Nat) : Remote η :=
  { s with timers := { s.timers with heartbeatDueMs := due, heartbeatInterval := interval } }

/-- The frame is a `JOIN_ACK` that ends a join. -/
structure CompletesJoin (s : Remote η) (f : Frame) : Prop where
  accepts : s.Accepts f
  size : f.payload.length = JoinAck.size
  stage : (JoinAck.parse f.payload).stage = joinStatusComplete

/-- What a received frame does to the heartbeat.  A `SCHEMA_REQUEST` unsets its time, a `CONFIG` sets time
and interval, and the end of a join sends a heartbeat. -/
inductive Turn (e : Env) (s : Remote η) (f : Frame) : Remote η → Prop
  | keeps {t : Remote η} (h : s.Keeps t) : Turn e s f t
  | left {t : Remote η} (h : s.Leaves t) : Turn e s f t
  | unset {t : Remote η} (h : (s.setDue 0 s.timers.heartbeatInterval).Keeps t) : Turn e s f t
  | configured {t : Remote η} (interval : UInt32) (hmost : interval ≤ 3600)
      (h : (s.setDue (e.now + interval * 1000) interval.toNat).Keeps t) : Turn e s f t
  | completed {t : Remote η} (hf : s.CompletesJoin f) (sent : Bool) (h : Beats e s t sent)
      (hnormal : t.session.normal) (hsearch : t.discovery.discovering = false) : Turn e s f t

theorem Keeps.setDue (h : s.Keeps t) (due : UInt32) (interval : Nat) :
    (s.setDue due interval).Keeps (t.setDue due interval) :=
  ⟨rfl, rfl, h.normal, h.search, h.silent⟩

section

variable {f : Frame}

theorem handleDiscover_turn (s : Remote η) (senderMac : Mac) :
    Turn e s f (s.handleDiscover e senderMac f).1 := by
  have hqueue (s : Remote η) (senderMac leafMac : Mac) (role hops : UInt8) :
      s.Keeps (s.sendDiscoverAnnounceWithJitter e senderMac leafMac role hops).1 := by
    unfold sendDiscoverAnnounceWithJitter
    split
    · exact .refl s
    · exact .fields rfl rfl rfl rfl id
  unfold handleDiscover
  dsimp only
  repeat (split; · exact .keeps (.refl s))
  exact .keeps ((hqueue _ _ _ _ _).before rfl rfl rfl rfl id)

theorem handleDiscoverAnnounce_turn (s : Remote η) (senderMac : Mac) (rssi : Int) :
    Turn e s f (s.handleDiscoverAnnounce e senderMac f rssi).1 := by
  unfold handleDiscoverAnnounce
  dsimp only
  repeat (split; · exact .keeps (.refl s))
  unfold selectParentCandidate
  dsimp only
  split
  · exact .keeps (.fields rfl rfl rfl rfl id)
  · exact .keeps (.refl s)

theorem rejectJoin_turn (s : Remote η) (ack : JoinAck) : Turn e s f (s.rejectJoin P e ack) := by
  unfold rejectJoin
  dsimp only
  split
  · split
    · refine .left (Leaves.setDiscoverDue ?_ _)
      exact ⟨rfl, (startDiscoveryCycle_leaves _ _ _).interval⟩
    · exact .keeps (.fields rfl rfl rfl rfl id)
  · exact .left ⟨rfl, (startDiscoveryCycle_leaves _ _ _).interval⟩

/-- The last answer to a `JOIN` sends a heartbeat at once, and sets the due time. -/
theorem handleJoinAck_turn (s : Remote η) (htype : f.type? = some .joinAck)
    (hmac : f.header.leafMac = s.config.leafMac) : Turn e s f (s.handleJoinAck P e f).1 := by
  have haccept : s.Keeps (s.acceptJoin P (JoinAck.parse f.payload) f.header.txCounter) :=
    .fields rfl rfl rfl rfl nofun
  unfold handleJoinAck
  dsimp only
  split
  · exact .keeps (.refl s)
  next hnew =>
  split
  · exact .keeps (.refl s)
  next hsize =>
  split
  · exact rejectJoin_turn s _
  next haccepted =>
  rw [not_not] at hsize haccepted
  split
  · dsimp only
    split
    · exact .keeps haccept
    · exact .left ⟨rfl, rfl⟩
  split
  · dsimp only
    split
    · exact .keeps haccept
    · exact .left ⟨rfl, rfl⟩
  split
  next hstage =>
    -- the join is complete: the leaf is normal, and has a parent
    set u := (s.acceptJoin P (JoinAck.parse f.payload) f.header.txCounter).completeJoin with hu
    have hready : ¬ (¬ u.session.joined ∨ ¬ u.route.parentValid ∨ ¬ u.session.normal) := by
      rw [hu]
      exact fun h => h.elim (absurd rfl) fun h => h.elim (absurd rfl) (absurd rfl)
    obtain ⟨hbeats, x, r, hafter⟩ := sendHeartbeat_sends (P := P) (e := e) u hready
    have haccepts : s.Accepts f :=
      ⟨htype, hmac, fun hjoined => by_contra fun hold => hnew ⟨hjoined, hold⟩, haccepted⟩
    refine .completed ⟨haccepts, hsize, hstage⟩ _ (hbeats.before rfl ⟨[], rfl, nofun⟩) ?_ ?_
    · rw [hafter]
      rfl
    · rw [hafter]
      rfl
  · exact .left ⟨rfl, rfl⟩

theorem handleDeauth_turn (s : Remote η) : Turn e s f (s.handleDeauth P e f).1 := by
  unfold handleDeauth
  split
  · exact .keeps (.refl s)
  split
  · exact .keeps (.refl s)
  dsimp only
  split
  · generalize hu : ({ s.clearSessionState P e true with
      session := { (s.clearSessionState P e true).session with remoteNonce := e.nonce 0 }
      discovery := { (s.clearSessionState P e true).discovery with
        discovering := true
        sweepComplete := true
        fastRejoin := false
        resumeNormalAfterSuccess := false
        currentChannelOnly := true } } : Remote η) = u
    have hjoin := sendJoin_keeps (P := P) (e := e) u
    have hleaves : s.Leaves u := by
      rw [← hu]
      exact ⟨rfl, (clearSessionState_leaves s true).interval⟩
    generalize u.sendJoin P e = o at hjoin ⊢
    obtain ⟨t, sent⟩ := o
    cases sent with
    | true => exact .left ⟨hjoin.normal.trans hleaves.normal, hjoin.interval.trans hleaves.interval⟩
    | false =>
      exact .left ⟨rfl, (startDiscoveryCycle_leaves t _ _).interval.trans
        (hjoin.interval.trans hleaves.interval)⟩
  · exact .left ⟨rfl, (startDiscoveryCycle_leaves _ _ _).interval.trans
      (clearSessionState_leaves s true).interval⟩

theorem handleAck_turn (s : Remote η) : Turn e s f (s.handleAck P e f).1 := by
  unfold handleAck
  split
  · exact .keeps (.refl s)
  split
  · exact .keeps (.refl s)
  dsimp only
  split
  · exact .keeps (.refl s)
  split
  · split
    · exact .keeps ⟨rfl, rfl, rfl, id, [_], rfl, by simp [Effect.isHeartbeat]⟩
    · exact .keeps (.fields rfl rfl rfl rfl id)
  · exact .keeps (.refl s)

theorem storeCommand_keeps (s : Remote η) (counter : UInt32) (command : EntityPayload) (base : UInt32) :
    s.Keeps (s.storeCommand P e counter command base).1 := by
  unfold storeCommand
  dsimp only
  split
  · exact .fields rfl rfl rfl rfl id
  split
  · refine .trans ?_ (Keeps.sendClosed.sendCommandAck _ _ _)
    exact ⟨rfl, rfl, rfl, id, [_], rfl, by simp [Effect.isHeartbeat]⟩
  · exact .fields rfl rfl rfl rfl id

theorem handleCommand_turn (s : Remote η) : Turn e s f (s.handleCommand P e f).1 := by
  unfold handleCommand
  split
  · exact .keeps (.refl s)
  split
  · exact .keeps (.refl s)
  split
  · exact .keeps (.refl s)
  dsimp only
  split
  · exact .keeps (Keeps.sendClosed.sendCommandAck s _ _)
  split
  · exact .keeps (storeCommand_keeps s _ _ _)
  split
  · exact .keeps (Keeps.sendClosed.sendCommandAck s _ _)
  · exact .keeps (.refl s)

theorem ackAndRemember_keeps (s : Remote η) (counter : UInt32) (command result : UInt8) :
    s.Keeps (s.ackAndRemember P e counter command result).1 :=
  (Keeps.sendClosed.sendConfigAck _ _ _ _).before rfl rfl rfl rfl id

/-- A configuration command is carried out on a state that differs in nothing that matters. -/
theorem ackThen_turn (h : s.Keeps t) (counter : UInt32) (command : UInt8) (act : Remote η → Remote η)
    (hact : ∀ u, s.Keeps u → Turn e s f (act u)) : Turn e s f (t.ackThen P e counter command act).1 := by
  have hack := h.trans (ackAndRemember_keeps (P := P) (e := e) t counter command cfgResultOk)
  unfold ackThen
  generalize t.ackAndRemember P e counter command cfgResultOk = o at hack ⊢
  obtain ⟨u, sent⟩ := o
  cases sent with
  | true => exact hact _ (hack.trans (.note u rfl))
  | false => exact .keeps hack

theorem runConfig_turn (h : s.Keeps t) (counter : UInt32) (command : UInt8) (payload : Bytes) :
    Turn e s f (t.runConfig P e counter command payload).1 := by
  have hanswer (result : UInt8) : Turn e s f (t.ackAndRemember P e counter command result).1 :=
    .keeps (h.trans (ackAndRemember_keeps t counter command result))
  unfold runConfig
  dsimp only
  split
  · split
    · exact hanswer _
    · exact ackThen_turn h _ _ _ fun u hu => .keeps (hu.trans (.note u rfl))
  · split
    · exact hanswer _
    split
    · exact hanswer _
    next hrange =>
      refine ackThen_turn h _ _ _ fun u hu => .configured (word32At payload 0) ?_ (hu.setDue _ _)
      exact UInt32.not_lt.1 fun hlt => hrange (.inr hlt)
  · split
    · exact hanswer _
    · refine ackThen_turn h _ _ _ fun u hu => .left (.before (t := u) ⟨rfl, ?_⟩ hu)
      exact (clearSessionState_leaves u true).interval
  · split
    · exact hanswer _
    split
    · exact hanswer _
    · exact ackThen_turn h _ _ _ fun u hu => .left (.before (t := u) ⟨rfl, rfl⟩ hu)
  · split
    · exact hanswer _
    · exact ackThen_turn h _ _ _ fun u hu => .keeps (hu.after rfl rfl rfl rfl id)
  · exact hanswer _

theorem handleConfig_turn (s : Remote η) : Turn e s f (s.handleConfig P e f).1 := by
  have hseen : s.Keeps (s.seen f.header.txCounter) := .fields rfl rfl rfl rfl id
  unfold handleConfig
  dsimp only
  split
  · exact .keeps (.refl s)
  split
  · exact .keeps (.refl s)
  split
  · exact .keeps (Keeps.sendClosed.sendConfigAck s _ _ _)
  split
  · exact .keeps (.refl s)
  split
  · exact .keeps (hseen.trans (ackAndRemember_keeps _ _ _ _))
  split
  · exact .keeps (hseen.trans (ackAndRemember_keeps _ _ _ _))
  split
  · exact .keeps (hseen.trans (ackAndRemember_keeps _ _ _ _))
  · exact runConfig_turn hseen _ _ _

theorem handleSchemaRequest_turn (s : Remote η) : Turn e s f (s.handleSchemaRequest P e f).1 := by
  unfold handleSchemaRequest
  dsimp only
  split
  · exact .keeps (.refl s)
  split
  · exact .keeps (.refl s)
  split
  · exact .keeps (.refl s)
  split
  · split
    · exact .unset ((sendIdentityDescriptor_keeps _).before rfl rfl rfl rfl id)
    · exact .unset (.fields rfl rfl rfl rfl id)
  · split
    · exact .unset ((Keeps.sendClosed.sendSchemaPush _ _).before rfl rfl rfl rfl id)
    · exact .unset (.fields rfl rfl rfl rfl id)

theorem handleFileTransfer_turn (s : Remote η) : Turn e s f (s.handleFileTransfer P e f).1 := by
  unfold handleFileTransfer
  split
  · exact .keeps (.refl s)
  split
  · exact .keeps (.refl s)
  split
  · exact .keeps (.refl s)
  next plaintext _ =>
    have hnote : s.Keeps (s.noteOtaActivity e) := .fields rfl rfl rfl rfl id
    have hfiles := Keeps.of_steps (Receiver.handleFileTransfer_owner (x := fileContext P e)
      (fun p _ => .single (Keeps.sendClosed.sendAck p _ 0))
      (noteFileCounter s.files f.header.txCounter plaintext) (s.noteOtaActivity e) plaintext)
    exact .keeps ((hnote.trans hfiles).after rfl rfl rfl rfl id)

theorem handleFileData_turn (s : Remote η) : Turn e s f (s.handleFileData P e f).1 := by
  unfold handleFileData
  split
  · exact .keeps (.refl s)
  split
  · exact .keeps (.refl s)
  split
  · exact .keeps (.refl s)
  · exact .keeps (.fields rfl rfl rfl rfl id)

theorem forwardFrame_keeps (s : Remote η) (mac : Mac) (f : Frame) (delta : UInt8) :
    s.Keeps (s.forwardFrame P e mac f delta).1 :=
  ⟨rfl, rfl, rfl, id, [_], rfl, by simp [Effect.isHeartbeat]⟩

theorem refreshRoute_keeps (s : Remote η) (leafMac nextHopMac : Mac) :
    s.Keeps (s.refreshRoute e leafMac nextHopMac) := by
  unfold refreshRoute
  split
  · exact .refl s
  · exact .fields rfl rfl rfl rfl id

theorem forwardPacket_keeps (s : Remote η) (f : Frame) : s.Keeps (s.forwardPacket P e f).1 := by
  unfold forwardPacket
  split
  · split
    · exact .refl s
    · exact forwardFrame_keeps s _ f 0
  · split
    · exact .refl s
    · exact (refreshRoute_keeps s _ _).trans (forwardFrame_keeps _ _ f 1)

/-- No other frame does. -/
theorem handleLocally_turn (s : Remote η) (senderMac : Mac) (rssi : Int)
    (hown : f.type? = some .joinAck → f.header.leafMac = s.config.leafMac) :
    Turn e s f (s.handleLocally P e senderMac f rssi).1 := by
  unfold handleLocally
  split
  · exact handleDiscover_turn s senderMac
  · exact handleDiscoverAnnounce_turn s senderMac rssi
  next htype => exact handleJoinAck_turn s htype (hown htype)
  · exact handleAck_turn s
  · exact handleCommand_turn s
  · exact handleConfig_turn s
  · exact handleSchemaRequest_turn s
  · exact handleDeauth_turn s
  · split
    · exact handleFileTransfer_turn s
    · exact .keeps (.refl s)
  · split
    · exact handleFileData_turn s
    · exact .keeps (.refl s)
  · exact .keeps (.refl s)

/-- The route matters to no frame's turn. -/
theorem Turn.of_route {x : Route} (h : Turn e { s with route := x } f t) : Turn e s f t := by
  cases h with
  | keeps h => exact .keeps (h.before rfl rfl rfl rfl id)
  | left h => exact .left ⟨h.normal, h.interval⟩
  | unset h => exact .unset (h.before rfl rfl rfl rfl id)
  | configured interval hmost h => exact .configured interval hmost (h.before rfl rfl rfl rfl id)
  | completed hf sent h hnormal hsearch =>
    obtain ⟨⟨htype, hmac, hnew, haccepted⟩, hsize, hstage⟩ := hf
    exact .completed ⟨⟨htype, hmac, hnew, haccepted⟩, hsize, hstage⟩ sent (h.before rfl ⟨[], rfl, nofun⟩)
      hnormal hsearch

theorem noteRssi_route (s : Remote η) (senderMac : Mac) (rssi : Int) :
    ∃ x, s.noteRssi senderMac rssi = { s with route := x } := by
  unfold noteRssi
  split
  · exact ⟨_, rfl⟩
  · exact ⟨s.route, rfl⟩

theorem noteHops_route (s : Remote η) (f : Frame) : ∃ x, s.noteHops f = { s with route := x } := by
  unfold noteHops
  split
  · exact ⟨_, rfl⟩
  · exact ⟨s.route, rfl⟩

/-- A frame is dropped, or it makes one of these turns. -/
theorem onFrame_turn (s : Remote η) (senderMac : Mac) (len : Nat) (rssi : Int) :
    (s.onFrame P e senderMac f len rssi).1 = s ∨
      s.Passes P f ∧ Turn e s f (s.onFrame P e senderMac f len rssi).1 := by
  unfold onFrame
  split
  · exact .inl rfl
  next hpsk =>
  split
  · exact .inl rfl
  next hhops =>
  split
  · exact .inl rfl
  next hparent =>
  rw [not_not] at hpsk hparent
  refine .inr ⟨⟨hpsk, Nat.not_le.1 hhops, hparent⟩, ?_⟩
  obtain ⟨x, hx⟩ := noteRssi_route s senderMac rssi
  rw [hx]
  dsimp only
  split
  · exact .keeps (.fields rfl rfl rfl rfl id)
  split
  next hlocal =>
    obtain ⟨x', hx'⟩ := noteHops_route { s with route := x } f
    rw [hx']
    have hown : f.type? = some .joinAck → f.header.leafMac = s.config.leafMac := fun htype => by
      simpa [shouldHandleLocally, htype] using hlocal
    exact (handleLocally_turn { s with route := x' } senderMac rssi hown).of_route
  split
  · exact .keeps (.fields rfl rfl rfl rfl id)
  split
  · unfold handleUpstream
    split
    · exact .keeps (.fields rfl rfl rfl rfl id)
    · exact (Turn.keeps ((refreshRoute_keeps { s with route := x } _ _).trans
        (forwardPacket_keeps _ f))).of_route
  · exact (Turn.keeps (forwardPacket_keeps { s with route := x } f)).of_route

end

/-! ## The whole loop -/

/-- What the loop does to the heartbeat. -/
inductive LoopTurn (P : Platform η) (e : Env) (s : Remote η) : Remote η → Prop
  | keeps {t : Remote η} (h : s.Keeps t) : LoopTurn P e s t
  | left {t : Remote η} (h : s.Leaves t) : LoopTurn P e s t
  | resumed {t : Remote η} (hs : s.discovery.discovering) (sent : Bool) (h : Beats e s t sent)
      (hnormal : t.session.normal) (hsearch : t.discovery.discovering = false) : LoopTurn P e s t
  | waits {t : Remote η} (hnormal : s.session.normal) (hearly : ¬ s.heartbeatDue e ≤ e.now)
      (hreaches : (s.loopBeforeHeartbeat P e).2 = false)
      (h : (s.setDue (s.heartbeatDue e) s.timers.heartbeatInterval).Keeps t) : LoopTurn P e s t
  | refuses {t : Remote η} (hnormal : s.session.normal) (hdue : s.heartbeatDue e ≤ e.now)
      (hreaches : (s.loopBeforeHeartbeat P e).2 = false)
      (h : (s.setDue (s.heartbeatDue e) s.timers.heartbeatInterval).Keeps t) : LoopTurn P e s t
  | beats {t : Remote η} (hnormal : s.session.normal) (hdue : s.heartbeatDue e ≤ e.now)
      (hreaches : (s.loopBeforeHeartbeat P e).2 = false) (sent : Bool) (h : Beats e s t sent)
      (hstays : t.session.normal) (hsearch : t.discovery.discovering → s.discovery.discovering) :
      LoopTurn P e s t

theorem Keeps.heartbeatDue (h : s.Keeps t) : t.heartbeatDue e = s.heartbeatDue e := by
  unfold Remote.heartbeatDue
  rw [h.due, h.interval]

/-- The loop at its heartbeat. -/
theorem loopHeartbeat_turn (h : s.Keeps t) (hbefore : s.loopBeforeHeartbeat P e = (t, false)) :
    LoopTurn P e s (andThen (t.loopHeartbeat P e) fun s => s.pushDirtyState P e) := by
  have hreaches : (s.loopBeforeHeartbeat P e).2 = false := congrArg Prod.snd hbefore
  unfold loopHeartbeat
  split
  next hnormal =>
    rw [h.normal] at hnormal
    have hset : (s.setDue (s.heartbeatDue e) s.timers.heartbeatInterval).Keeps
        (t.setDue (t.heartbeatDue e) t.timers.heartbeatInterval) := by
      rw [h.heartbeatDue, h.interval]
      exact h.setDue _ _
    dsimp only
    split
    next hdue =>
      rw [h.heartbeatDue] at hdue
      show LoopTurn P e s ((t.setDue (t.heartbeatDue e) t.timers.heartbeatInterval).sendHeartbeat P e).1
      obtain hnone | ⟨hbeats, x, r, hafter⟩ :=
        sendHeartbeat_cases (P := P) (e := e) (t.setDue (t.heartbeatDue e) t.timers.heartbeatInterval)
      · rw [hnone]
        exact .refuses hnormal hdue hreaches hset
      · refine .beats hnormal hdue hreaches _ (hbeats.before hset.interval hset.silent) ?_ ?_
        · rw [hafter]
          exact hset.normal.trans hnormal
        · rw [hafter]
          exact hset.search
    next hearly =>
      rw [h.heartbeatDue] at hearly
      exact .waits hnormal hearly hreaches (hset.trans (pushDirtyState_keeps _))
  · exact .keeps (h.trans (pushDirtyState_keeps t))

/-- The loop makes one of its turns, and which one depends on the due time at its beginning. -/
theorem loop_turn (s : Remote η) : LoopTurn P e s (s.loop P e) := by
  rw [loop_eq]
  have hpart := loopBeforeHeartbeat_part (P := P) (e := e) s
  generalize hbefore : s.loopBeforeHeartbeat P e = r at hpart
  cases hpart with
  | @keeps t returned h =>
    cases returned with
    | true => exact .keeps h
    | false => exact loopHeartbeat_turn h hbefore
  | left h => exact .left h
  | @resumed t h hsearch =>
    have hready : ¬ (¬ (t.adopted true).session.joined ∨ ¬ (t.adopted true).route.parentValid ∨
        ¬ (t.adopted true).session.normal) :=
      fun h => h.elim (absurd rfl) fun h => h.elim (absurd rfl) (absurd rfl)
    obtain ⟨hbeats, x, r, hafter⟩ := sendHeartbeat_sends (P := P) (e := e) (t.adopted true) hready
    refine .resumed (h.search hsearch) _ (hbeats.before h.interval h.silent) ?_ ?_
    · show (((t.adopted true).sendHeartbeat P e).1).session.normal = true
      rw [hafter]
      rfl
    · show (((t.adopted true).sendHeartbeat P e).1).discovery.discovering = false
      rw [hafter]
      rfl

/-- A normal leaf whose heartbeat is not due goes on to its states. -/
theorem loop_of_early (hearly : ¬ s.heartbeatDue e ≤ e.now) :
    s.loop P e = andThen (s.loopBeforeHeartbeat P e) fun t => (t.awaitHeartbeat e).pushDirtyState P e := by
  rw [loop_eq]
  have hpart := loopBeforeHeartbeat_part (P := P) (e := e) s
  generalize s.loopBeforeHeartbeat P e = r at hpart
  cases hpart with
  | @keeps t returned h =>
    cases returned with
    | true => rfl
    | false =>
      show andThen (t.loopHeartbeat P e) _ = (t.awaitHeartbeat e).pushDirtyState P e
      rw [← h.heartbeatDue] at hearly
      unfold loopHeartbeat awaitHeartbeat
      split
      · dsimp only
        rw [if_neg hearly]
        rfl
      · rfl
  | left | resumed => rfl

end

end Remote

end EspTree
