import EspTree.Remote.Requests

/-!
# The leaf: what a call leaves steady

Two things that a leaf has to keep while it looks for a parent and joins: what it reports about itself in the
schema hash of its `JOIN`, and the best candidate for a parent among the announcements.

`Steady` says that a step leaves both alone, or drops the candidate with the route.  `call_turn` goes through
the code: a call is such a step, unless it answers a request for the identity or takes an announcement.

The hash is a function of a few fields (`schemaHash_congr`), and so a step that leaves these alone
reports the same.  What the entities have as values is not among them: `schemas` are their
descriptors.

A `JOIN` that is sent while a step is under way carries the hash of that moment, which is the one
before it.  This is the field `joins`, and it is what makes the relation about all frames that were
sent, and not only about the state at the end.
-/

namespace EspTree

open Wire FileReceiver

/-- What `compute_schema_hash_` collects: the identity, the build information as far as it has been reported,
and one descriptor for each entity. -/
def schemaBytes (i reported : Identity) (schemas : List EntitySchema) : Bytes :=
  let total := UInt8.ofNat schemas.length
  let descriptors := schemas.zipIdx.flatMap fun (schema, n) =>
    (schemaPushPayload total schema (UInt8.ofNat n) schema.entityOptions).take 222
  i.esphomeName ++ [0] ++ i.nodeLabel ++ [0] ++ leEncode 4 i.firmwareEpoch.toNat ++
    i.projectName ++ [0] ++ i.projectVersion ++ [0] ++ leEncode 4 reported.chipModel.toNat ++
    reported.buildDate ++ [0] ++ reported.buildTime ++ [0] ++ descriptors

/-- The schema hash, if the effect is a `JOIN` of the leaf `own`. -/
def Effect.joinHash? (own : Mac) : Effect → Option (Octets 32)
  | .send _ data _ =>
    match parseFrame data with
    | some f =>
      if f.type? = some .join ∧ f.header.leafMac = own then some (Join.parse f.payload).schemaHash else none
    | none => none
  | _ => none

namespace Remote

variable {η : Type}

/-- The entities as they were registered. -/
def schemas (s : Remote η) : List EntitySchema := s.entities.records.map EntityRecord.schema

theorem schemaHash_eq (P : Platform η) (s : Remote η) :
    s.schemaHash P = P.sha256 (schemaBytes s.config.identity s.reported s.schemas) := by
  simp only [schemaHash, schemaBytes, schemas, List.length_map, List.zipIdx_map, List.flatMap_map]
  rfl

/-- A step that leaves alone what is reported and what was chosen, or drops the choice; its `JOIN` frames carry
the schema hash. -/
structure Steady (P : Platform η) (s t : Remote η) : Prop where
  config : t.config = s.config
  reported : t.reported = s.reported
  schemas : t.schemas = s.schemas
  chosen : t.route.bestParent = s.route.bestParent ∧ t.route.preferredParents = s.route.preferredParents ∨
    t.route.bestParent = {}
  joins : ∃ new, t.radio.effects = new ++ s.radio.effects ∧
    ∀ eff ∈ new, ∀ hash ∈ eff.joinHash? s.config.leafMac, hash = s.schemaHash P

section

variable {P : Platform η} {e : Env} {s t u : Remote η}

/-- The hash depends on the identity, on what was reported and on the entities. -/
theorem schemaHash_congr (hconfig : t.config = s.config) (hreported : t.reported = s.reported)
    (hschemas : t.schemas = s.schemas) : t.schemaHash P = s.schemaHash P := by
  rw [schemaHash_eq, schemaHash_eq, hconfig, hreported, hschemas]

/-- A steady step keeps the hash. -/
theorem Steady.schemaHash (h : Steady P s t) : t.schemaHash P = s.schemaHash P :=
  schemaHash_congr h.config h.reported h.schemas

theorem Steady.refl (s : Remote η) : Steady P s s := ⟨rfl, rfl, rfl, .inl ⟨rfl, rfl⟩, [], rfl, nofun⟩

/-- Two steady steps are one. -/
theorem Steady.trans (h : Steady P s t) (h' : Steady P t u) : Steady P s u where
  config := h'.config.trans h.config
  reported := h'.reported.trans h.reported
  schemas := h'.schemas.trans h.schemas
  chosen := by
    rcases h'.chosen with ⟨hbest', hpreferred'⟩ | hbest'
    · rw [hbest', hpreferred']
      exact h.chosen
    · exact .inr hbest'
  joins := by
    obtain ⟨new, hnew, hjoins⟩ := h.joins
    obtain ⟨new', hnew', hjoins'⟩ := h'.joins
    refine ⟨new' ++ new, by rw [hnew', hnew, List.append_assoc], fun eff heff hash hhash => ?_⟩
    rcases List.mem_append.1 heff with heff | heff
    · rw [← h.config] at hhash
      exact (hjoins' eff heff hash hhash).trans h.schemaHash
    · exact hjoins eff heff hash hhash

theorem Steady.of_steps (h : Relation.ReflTransGen (Steady P) s t) : Steady P s t := by
  induction h with
  | refl => exact .refl s
  | tail _ hstep ih => exact ih.trans hstep

/-- A step that writes none of the fields and does nothing to the outside. -/
theorem Steady.fields (hconfig : t.config = s.config) (hreported : t.reported = s.reported)
    (hschemas : t.schemas = s.schemas) (hbest : t.route.bestParent = s.route.bestParent)
    (hpreferred : t.route.preferredParents = s.route.preferredParents)
    (heffects : t.radio.effects = s.radio.effects) : Steady P s t :=
  ⟨hconfig, hreported, hschemas, .inl ⟨hbest, hpreferred⟩, [], heffects, nofun⟩

theorem Steady.before (h : Steady P t u) (hconfig : t.config = s.config) (hreported : t.reported = s.reported)
    (hschemas : t.schemas = s.schemas) (hbest : t.route.bestParent = s.route.bestParent)
    (hpreferred : t.route.preferredParents = s.route.preferredParents)
    (heffects : t.radio.effects = s.radio.effects) : Steady P s u :=
  (Steady.fields hconfig hreported hschemas hbest hpreferred heffects).trans h

theorem Steady.after (h : Steady P s t) (hconfig : u.config = t.config) (hreported : u.reported = t.reported)
    (hschemas : u.schemas = t.schemas) (hbest : u.route.bestParent = t.route.bestParent)
    (hpreferred : u.route.preferredParents = t.route.preferredParents)
    (heffects : u.radio.effects = t.radio.effects) : Steady P s u :=
  h.trans (.fields hconfig hreported hschemas hbest hpreferred heffects)

/-- A step that drops the candidate with the route is steady. -/
theorem Steady.dropped (hconfig : t.config = s.config) (hreported : t.reported = s.reported)
    (hschemas : t.schemas = s.schemas) (hbest : t.route.bestParent = {})
    (heffects : t.radio.effects = s.radio.effects) : Steady P s t :=
  ⟨hconfig, hreported, hschemas, .inr hbest, [], heffects, nofun⟩

theorem Steady.note (s : Remote η) {eff : Effect} (heff : eff.joinHash? s.config.leafMac = none) :
    Steady P s (s.note eff) := by
  refine ⟨rfl, rfl, rfl, .inl ⟨rfl, rfl⟩, [eff], rfl, fun eff' heff' hash hhash => ?_⟩
  rw [List.mem_singleton.1 heff', heff] at hhash
  cases hhash

/-! ## Sending -/

/-- A frame of another type or another leaf is no `JOIN` of this one. -/
theorem joinHash?_send {own : Mac} {f : Frame} (h : ¬ (f.type? = some .join ∧ f.header.leafMac = own))
    (mac : Mac) (sent : Bool) : (Effect.send mac f.bytes sent).joinHash? own = none := by
  unfold Effect.joinHash?
  dsimp only
  split
  next g hparse =>
    have hheader := header_of_bytes hparse
    rw [if_neg]
    rwa [Frame.type?, hheader]
  · rfl

/-- A frame that is no `JOIN` of the leaf shows no hash. -/
theorem transmit_steady (s : Remote η) (mac : Mac) {frame : Frame}
    (h : ¬ (frame.type? = some .join ∧ frame.header.leafMac = s.config.leafMac)) :
    Steady P s (s.transmit e mac frame).1 :=
  (Steady.note s (joinHash?_send h mac (e.sendOk s.radio.effects.length))).trans
    (.fields rfl rfl rfl rfl rfl rfl)

theorem sendPlain_steady (s : Remote η) (mac : Mac) {type : PacketType} (hop : UInt8) (tx : UInt32)
    (payload : Bytes) (htype : type ≠ .join) : Steady P s (s.sendPlain P e mac type hop tx payload).1 := by
  refine transmit_steady s _ fun hjoin => htype ?_
  have hcode : some type = some .join := (PacketType.ofCode?_code type).symm.trans hjoin.1
  exact Option.some.inj hcode

theorem sendSealed_steady (s : Remote η) (mac : Mac) {type : PacketType} (hop : UInt8) (tx : UInt32)
    (plaintext : Bytes) (htype : type ≠ .join) : Steady P s (s.sendSealed P e mac type hop tx plaintext).1 := by
  unfold sendSealed
  split
  · exact .refl s
  split
  · exact .refl s
  · refine (Steady.note s rfl).trans (transmit_steady _ _ fun hjoin => htype ?_)
    have hcode : some type = some .join := (PacketType.ofCode?_code type).symm.trans hjoin.1
    exact Option.some.inj hcode

theorem bumpTxCounter_steady (s : Remote η) : Steady P s s.bumpTxCounter := .fields rfl rfl rfl rfl rfl rfl

theorem sendUp_steady (s : Remote η) {type : PacketType} (plaintext : Bytes) (htype : type ≠ .join) :
    Steady P s (s.sendUp P e type plaintext).1 :=
  (bumpTxCounter_steady s).trans (sendSealed_steady _ _ _ _ _ htype)

theorem sendUpTracked_steady (s : Remote η) {type : PacketType} (plaintext : Bytes) (htype : type ≠ .join) :
    Steady P s (s.sendUpTracked P e type plaintext).1 := by
  unfold sendUpTracked
  dsimp only
  split
  · exact bumpTxCounter_steady s
  · exact (sendSealed_steady _ _ _ _ _ htype).before rfl rfl rfl rfl rfl rfl

theorem sendHeartbeat_steady (s : Remote η) : Steady P s (s.sendHeartbeat P e).1 := by
  unfold sendHeartbeat
  split
  · exact .refl s
  · exact (sendUp_steady s _ (show PacketType.heartbeat ≠ .join from nofun)).after rfl rfl rfl rfl rfl rfl

/-- The entities stay what they were registered as. -/
theorem schemas_modify (s : Remote η) (index : UInt8) {f : EntityRecord → EntityRecord}
    (hf : ∀ r, (f r).schema = r.schema) : (s.setRecord index f).schemas = s.schemas := by
  show (s.entities.records.modify index.toNat f).map EntityRecord.schema = s.schemas
  refine List.ext_getElem (by simp [schemas]) fun n h₁ h₂ => ?_
  simp only [schemas, List.getElem_map, List.getElem_modify]
  split
  · exact hf _
  · rfl

theorem setRecord_steady (s : Remote η) (index : UInt8) {f : EntityRecord → EntityRecord}
    (hf : ∀ r, (f r).schema = r.schema) : Steady P s (s.setRecord index f) :=
  .fields rfl rfl (schemas_modify s index hf) rfl rfl rfl

theorem stateSendFailed_steady (s : Remote η) (index : UInt8) : Steady P s (s.stateSendFailed e index) :=
  (setRecord_steady s index (f := fun r => { r with dirty := true }) fun _ => rfl).after rfl rfl rfl rfl rfl rfl

/-- So all that is sent upstream is steady. -/
theorem Steady.sendClosed : SendClosed P e (Steady P) where
  refl := .refl
  trans := .trans
  ack s plaintext := sendUpTracked_steady s plaintext nofun
  state s plaintext := sendUpTracked_steady s plaintext nofun
  schemaPush s plaintext := sendUp_steady s plaintext nofun
  failed := stateSendFailed_steady
  remembered s index value _ base reset :=
    (Steady.note (s.rememberState e index value base reset) rfl).before rfl rfl rfl rfl rfl rfl

/-! ## Joining -/

theorem parse_bytes_schemaHash (j : Join) : (Join.parse j.bytes).schemaHash = j.schemaHash := by
  have hdrop : j.bytes.drop 16 = j.schemaHash.bytes ++ [j.hopsToBridge, j.dirtyCount, j.sessionFlags] :=
    List.drop_left' (Octets.length_bytes _)
  show Octets.fit 32 (j.bytes.drop 16) = j.schemaHash
  rw [hdrop, Octets.fit_bytes_append]

/-- The `JOIN` carries the schema hash. -/
theorem sendJoin_steady (s : Remote η) : Steady P s (s.sendJoin P e).1 := by
  unfold sendJoin
  split
  · exact .refl s
  dsimp only
  set t : Remote η := { s with discovery := { s.discovery with joinDelayUntilMs := 0 } } with ht
  set frame := plain P.crypto t.config.leafMac .join t.upHop t.radio.txCounter none (t.joinRequest P).bytes
    with hframe
  have hfits : frame.WellFormed := plain_wellFormed rfl (hasParentCheck_upHop t).symm (by
    rw [Join.length_bytes, headerSize, hasParentCheck_upHop t]
    decide)
  have hhash : (Join.parse frame.payload).schemaHash = s.schemaHash P := parse_bytes_schemaHash _
  refine ⟨rfl, rfl, rfl, .inl ⟨rfl, rfl⟩, [.send t.route.parentMac frame.bytes _], rfl, ?_⟩
  intro eff heff hash hjoin
  rw [List.mem_singleton.1 heff, Effect.joinHash?, parseFrame_bytes hfits] at hjoin
  dsimp only at hjoin
  split at hjoin
  · rw [← hhash]
    exact (Option.some.inj hjoin).symm
  · cases hjoin

/-! ## Losing the session -/

theorem abortFiles_steady (s : Remote η) (reason : UInt8) (notifySender : Bool) :
    Steady P s (s.abortFiles P e reason notifySender) :=
  (Steady.of_steps (Receiver.abort_owner (x := fileContext P e)
    (fun p _ => .single (Steady.sendClosed.sendAck p _ 0)) s.files s reason notifySender)).after rfl rfl rfl rfl rfl rfl

theorem clearSessionState_steady (s : Remote η) (preserveRoute : Bool) :
    Steady P s (s.clearSessionState P e preserveRoute) := by
  unfold clearSessionState
  dsimp only
  have hfiles : Steady P s (if s.files.isReceiving then s.abortFiles P e abortSessionLost false else s) := by
    split
    · exact abortFiles_steady s _ _
    · exact .refl s
  refine hfiles.trans ?_
  cases preserveRoute with
  | true => exact .fields rfl rfl rfl rfl rfl rfl
  | false => exact .dropped rfl rfl rfl rfl rfl

theorem startDiscoveryCycle_steady (s : Remote η) (nonce : Nonce) (wifiWaitExpired : Bool) :
    Steady P s (s.startDiscoveryCycle P e nonce wifiWaitExpired) :=
  (clearSessionState_steady s false).after rfl rfl rfl rfl rfl rfl

theorem Steady.setDiscoverDue (h : Steady P s t) (dueMs : UInt32) : Steady P s (t.setDiscoverDue dueMs) :=
  h.after rfl rfl rfl rfl rfl rfl

/-- The rediscovery that a configuration asks for keeps the candidate. -/
theorem startConfigFullRediscovery_steady (s : Remote η) (nonce : Nonce) :
    Steady P s (s.startConfigFullRediscovery P e nonce) :=
  (clearSessionState_steady s true).after rfl rfl rfl rfl rfl rfl

theorem startRouteRecoveryCycle_steady (s : Remote η) : Steady P s (s.startRouteRecoveryCycle e) :=
  .dropped rfl rfl rfl rfl rfl

theorem rejoinDueToTransmitStall_steady (s : Remote η) (noOutboundProgress : Bool) :
    Steady P s (s.rejoinDueToTransmitStall P e noOutboundProgress) := by
  cases noOutboundProgress with
  | false => exact startRouteRecoveryCycle_steady s
  | true => exact (clearSessionState_steady s true).trans (.note _ rfl)

/-! ## Received frames -/

/-- The leaf takes the frame as a request for its identity. -/
structure AsksIdentity (P : Platform η) (s : Remote η) (f : Frame) : Prop where
  passes : s.Passes P f
  type : f.type? = some .schemaRequest
  leafMac : f.header.leafMac = s.config.leafMac
  joined : s.session.joined
  newer : counterIsNewer f.header.txCounter s.session.lastSeenCounter
  request : ∃ plaintext, s.openFrame P f = some plaintext ∧ plaintext.length = SchemaRequest.size ∧
    (SchemaRequest.parse plaintext).descriptorType = descriptorTypeIdentity ∧
    (SchemaRequest.parse plaintext).descriptorIndex = 0
  parent : s.route.parentValid

/-- The candidate that an announcement offers. -/
def candidate (s : Remote η) (e : Env) (senderMac : Mac) (announce : DiscoverAnnounce) (rssi : Int) :
    Candidate where
  nextHopMac := senderMac
  responderRole := announce.responderRole
  bridgeReachable := announce.bridgeReachable != 0
  flags := announce.flags
  channel := e.wifiChannel.getD 1
  rssi := rssi
  hopsToBridge := announce.hopsToBridge
  valid := true
  preferredIndex := s.preferredIndex senderMac announce.responderMac

/-- The better of two candidates. -/
def Candidate.keepBetter (best other : Candidate) : Candidate :=
  if best.isBetter other.preferredIndex other.hopsToBridge other.rssi then other else best

/-- The leaf with another best candidate. -/
def withBest (s : Remote η) (best : Candidate) : Remote η :=
  { s with route := { s.route with bestParent := best } }

/-- The best candidate after an announcement. -/
def bestAfter (s : Remote η) (e : Env) (senderMac : Mac) (f : Frame) (rssi : Int) : Candidate :=
  s.route.bestParent.keepBetter (s.candidate e senderMac (DiscoverAnnounce.parse f.payload) rssi)

/-- What a received frame does to the schema hash and the choice of a parent. -/
inductive FrameTurn (P : Platform η) (e : Env) (s : Remote η) (f : Frame) (senderMac : Mac) (rssi : Int) :
    Remote η × Bool → Prop
  | steady {r : Remote η × Bool} (htype : f.type? ≠ some .discoverAnnounce) (h : Steady P s r.1) :
      FrameTurn P e s f senderMac rssi r
  | refused {r : Remote η × Bool} (hrefused : r.2 = false) (h : Steady P s r.1)
      (hbest : r.1.route.bestParent = s.route.bestParent) : FrameTurn P e s f senderMac rssi r
  | announced {t : Remote η} (htype : f.type? = some .discoverAnnounce)
      (h : Steady P (s.withBest (s.bestAfter e senderMac f rssi)) t)
      (hbest : t.route.bestParent = s.bestAfter e senderMac f rssi) : FrameTurn P e s f senderMac rssi (t, true)
  | reported {r : Remote η × Bool} (hasks : s.AsksIdentity P f)
      (h : Steady P { s with reported := s.config.identity } r.1) : FrameTurn P e s f senderMac rssi r

section

variable {f : Frame} {senderMac : Mac} {rssi : Int}

theorem handleDiscover_steady (s : Remote η) (senderMac : Mac) (f : Frame) :
    Steady P s (s.handleDiscover e senderMac f).1 := by
  have hqueue (s : Remote η) (senderMac leafMac : Mac) (role hops : UInt8) :
      Steady P s (s.sendDiscoverAnnounceWithJitter e senderMac leafMac role hops).1 := by
    unfold sendDiscoverAnnounceWithJitter
    split
    · exact .refl s
    · exact .fields rfl rfl rfl rfl rfl rfl
  unfold handleDiscover
  dsimp only
  repeat (split; · exact .refl s)
  exact (hqueue _ _ _ _ _).before rfl rfl rfl rfl rfl rfl

/-- An announcement is refused, or offers its candidate. -/
theorem handleDiscoverAnnounce_frameTurn (s : Remote η) (htype : f.type? = some .discoverAnnounce) :
    FrameTurn P e s f senderMac rssi (s.handleDiscoverAnnounce e senderMac f rssi) := by
  unfold handleDiscoverAnnounce
  dsimp only
  repeat (split; · exact .refused rfl (.refl s) rfl)
  have hselect : s.selectParentCandidate e senderMac (DiscoverAnnounce.parse f.payload) rssi =
      s.withBest (s.bestAfter e senderMac f rssi) := by
    unfold selectParentCandidate bestAfter Candidate.keepBetter withBest candidate
    dsimp only
    split <;> rfl
  rw [hselect]
  exact .announced htype (.refl _) rfl

theorem rejectJoin_steady (s : Remote η) (ack : JoinAck) : Steady P s (s.rejectJoin P e ack) := by
  unfold rejectJoin
  dsimp only
  split
  · split
    · refine Steady.setDiscoverDue ?_ _
      exact (startDiscoveryCycle_steady _ _ _).before rfl rfl rfl rfl rfl rfl
    · exact .fields rfl rfl rfl rfl rfl rfl
  · exact (startDiscoveryCycle_steady _ _ _).before rfl rfl rfl rfl rfl rfl

theorem schemas_markAllEntitiesDirty (s : Remote η) : s.markAllEntitiesDirty.schemas = s.schemas := by
  simp [schemas, markAllEntitiesDirty]

/-- No answer to a `JOIN` changes what the next one shows. -/
theorem handleJoinAck_steady (s : Remote η) (f : Frame) : Steady P s (s.handleJoinAck P e f).1 := by
  have haccept : Steady P s (s.acceptJoin P (JoinAck.parse f.payload) f.header.txCounter) :=
    .fields rfl rfl rfl rfl rfl rfl
  unfold handleJoinAck
  dsimp only
  split
  · exact .refl s
  split
  · exact .refl s
  split
  · exact rejectJoin_steady s _
  split
  · dsimp only
    split
    · exact haccept
    · exact .fields rfl rfl rfl rfl rfl rfl
  split
  · dsimp only
    split
    · exact haccept
    · exact .fields rfl rfl (schemas_markAllEntitiesDirty _) rfl rfl rfl
  split
  · exact (sendHeartbeat_steady _).before rfl rfl rfl rfl rfl rfl
  · exact .fields rfl rfl rfl rfl rfl rfl

theorem handleDeauth_steady (s : Remote η) (f : Frame) : Steady P s (s.handleDeauth P e f).1 := by
  unfold handleDeauth
  split
  · exact .refl s
  split
  · exact .refl s
  dsimp only
  have hclear := clearSessionState_steady (P := P) (e := e) s true
  split
  · generalize hu : ({ s.clearSessionState P e true with
      session := { (s.clearSessionState P e true).session with remoteNonce := e.nonce 0 }
      discovery := { (s.clearSessionState P e true).discovery with
        discovering := true
        sweepComplete := true
        fastRejoin := false
        resumeNormalAfterSuccess := false
        currentChannelOnly := true } } : Remote η) = u
    have hcleared : Steady P s u := by
      rw [← hu]
      exact hclear.after rfl rfl rfl rfl rfl rfl
    have hjoin := hcleared.trans (sendJoin_steady (e := e) u)
    generalize u.sendJoin P e = o at hjoin ⊢
    obtain ⟨t, sent⟩ := o
    cases sent with
    | true => exact hjoin
    | false => exact hjoin.trans (startDiscoveryCycle_steady t _ _)
  · exact hclear.trans ((startDiscoveryCycle_steady _ _ _).before rfl rfl rfl rfl rfl rfl)

theorem handleAck_steady (s : Remote η) (f : Frame) : Steady P s (s.handleAck P e f).1 := by
  unfold handleAck
  split
  · exact .refl s
  split
  · exact .refl s
  dsimp only
  split
  · exact .refl s
  split
  · split
    · refine Steady.trans (t := (s.seen f.header.txCounter).note
        (.stateAcked s.entities.pendingStateMessageTxBase)) ?_ ?_
      · exact (Steady.note s rfl).after rfl rfl rfl rfl rfl rfl
      · exact (setRecord_steady _ s.entities.pendingStateFieldIndex
          (f := fun r => { r with dirty := false }) fun _ => rfl).before rfl rfl rfl rfl rfl rfl
    · exact .fields rfl rfl rfl rfl rfl rfl
  · exact .refl s

theorem completeCommand_steady (s : Remote η) (command : EntityPayload) (base : UInt32) (a : FragmentAssembly) :
    Steady P s (s.completeCommand command base a) := by
  unfold completeCommand
  dsimp only
  refine Steady.trans ?_ (Steady.note _ rfl)
  exact (setRecord_steady _ command.entityIndex (f := fun r =>
    r.commanded (a.assemble s.session.limits.maxEntityFragment) base) fun _ => rfl).before rfl rfl rfl rfl rfl rfl

theorem storeCommand_steady (s : Remote η) (counter : UInt32) (command : EntityPayload) (base : UInt32) :
    Steady P s (s.storeCommand P e counter command base).1 := by
  unfold storeCommand
  dsimp only
  split
  · exact .fields rfl rfl rfl rfl rfl rfl
  split
  · refine .trans ?_ (Steady.sendClosed.sendCommandAck _ _ _)
    exact (completeCommand_steady _ _ _ _).before rfl rfl rfl rfl rfl rfl
  · exact .fields rfl rfl rfl rfl rfl rfl

theorem handleCommand_steady (s : Remote η) (f : Frame) : Steady P s (s.handleCommand P e f).1 := by
  unfold handleCommand
  split
  · exact .refl s
  split
  · exact .refl s
  split
  · exact .refl s
  dsimp only
  split
  · exact Steady.sendClosed.sendCommandAck s _ _
  split
  · exact storeCommand_steady s _ _ _
  split
  · exact Steady.sendClosed.sendCommandAck s _ _
  · exact .refl s

theorem ackAndRemember_steady (s : Remote η) (counter : UInt32) (command result : UInt8) :
    Steady P s (s.ackAndRemember P e counter command result).1 :=
  (Steady.sendClosed.sendConfigAck _ _ _ _).before rfl rfl rfl rfl rfl rfl

theorem ackThen_steady (s : Remote η) (counter : UInt32) (command : UInt8) {act : Remote η → Remote η}
    (hact : ∀ u, Steady P u (act u)) : Steady P s (s.ackThen P e counter command act).1 := by
  have hack := ackAndRemember_steady (P := P) (e := e) s counter command cfgResultOk
  unfold ackThen
  generalize s.ackAndRemember P e counter command cfgResultOk = o at hack ⊢
  obtain ⟨u, sent⟩ := o
  cases sent with
  | true => exact hack.trans (Steady.trans (.note u rfl) (hact _))
  | false => exact hack

theorem runConfig_steady (s : Remote η) (counter : UInt32) (command : UInt8) (payload : Bytes) :
    Steady P s (s.runConfig P e counter command payload).1 := by
  have hanswer (result : UInt8) : Steady P s (s.ackAndRemember P e counter command result).1 :=
    ackAndRemember_steady s counter command result
  unfold runConfig
  dsimp only
  split
  · split
    · exact hanswer _
    · exact ackThen_steady s _ _ fun u => .note u rfl
  · split
    · exact hanswer _
    split
    · exact hanswer _
    · exact ackThen_steady s _ _ fun u => .fields rfl rfl rfl rfl rfl rfl
  · split
    · exact hanswer _
    · exact ackThen_steady s _ _ fun u => startConfigFullRediscovery_steady u _
  · split
    · exact hanswer _
    split
    · exact hanswer _
    · exact ackThen_steady s _ _ fun u => .dropped rfl rfl rfl rfl rfl
  · split
    · exact hanswer _
    · exact ackThen_steady s _ _ fun u => .fields rfl rfl rfl rfl rfl rfl
  · exact hanswer _

theorem handleConfig_steady (s : Remote η) (f : Frame) : Steady P s (s.handleConfig P e f).1 := by
  have hseen : Steady P s (s.seen f.header.txCounter) := .fields rfl rfl rfl rfl rfl rfl
  unfold handleConfig
  dsimp only
  split
  · exact .refl s
  split
  · exact .refl s
  split
  · exact Steady.sendClosed.sendConfigAck s _ _ _
  split
  · exact .refl s
  split
  · exact hseen.trans (ackAndRemember_steady _ _ _ _)
  split
  · exact hseen.trans (ackAndRemember_steady _ _ _ _)
  split
  · exact hseen.trans (ackAndRemember_steady _ _ _ _)
  · exact hseen.trans (runConfig_steady _ _ _ _)

theorem handleFileTransfer_steady (s : Remote η) (f : Frame) : Steady P s (s.handleFileTransfer P e f).1 := by
  unfold handleFileTransfer
  split
  · exact .refl s
  split
  · exact .refl s
  split
  · exact .refl s
  next plaintext _ =>
    have hnote : Steady P s (s.noteOtaActivity e) := .fields rfl rfl rfl rfl rfl rfl
    have hfiles := Steady.of_steps (Receiver.handleFileTransfer_owner (x := fileContext P e)
      (fun p _ => .single (Steady.sendClosed.sendAck p _ 0))
      (noteFileCounter s.files f.header.txCounter plaintext) (s.noteOtaActivity e) plaintext)
    exact (hnote.trans hfiles).after rfl rfl rfl rfl rfl rfl

theorem handleFileData_steady (s : Remote η) (f : Frame) : Steady P s (s.handleFileData P e f).1 := by
  unfold handleFileData
  split
  · exact .refl s
  split
  · exact .refl s
  split
  · exact .refl s
  · exact .fields rfl rfl rfl rfl rfl rfl

/-- A request for the identity that is answered changes what is reported. -/
theorem handleSchemaRequest_steady (s : Remote η) (f : Frame) :
    Steady P s (s.handleSchemaRequest P e f).1 ∨
      (s.session.joined ∧ counterIsNewer f.header.txCounter s.session.lastSeenCounter ∧
        (∃ plaintext, s.openFrame P f = some plaintext ∧ plaintext.length = SchemaRequest.size ∧
          (SchemaRequest.parse plaintext).descriptorType = descriptorTypeIdentity ∧
          (SchemaRequest.parse plaintext).descriptorIndex = 0) ∧ s.route.parentValid) ∧
        Steady P { s with reported := s.config.identity } (s.handleSchemaRequest P e f).1 := by
  unfold handleSchemaRequest
  dsimp only
  split
  · exact .inl (.refl s)
  next hready =>
  split
  · exact .inl (.refl s)
  next plaintext hopen =>
  split
  · exact .inl (.refl s)
  next hsize =>
  rw [not_or, not_not, not_not] at hready
  split
  next hidentity =>
    split
    next hindex =>
      unfold sendIdentityDescriptor
      split
      · exact .inl (.fields rfl rfl rfl rfl rfl rfl)
      next hparent =>
        refine .inr ⟨⟨hready.1, hready.2, ⟨plaintext, hopen, not_not.1 hsize, hidentity, hindex⟩, ?_⟩, ?_⟩
        · exact not_not.1 (not_or.1 hparent).2
        · exact (sendUp_steady _ _ (show PacketType.schemaPush ≠ .join from nofun)).before rfl rfl rfl rfl rfl rfl
    · exact .inl (.fields rfl rfl rfl rfl rfl rfl)
  · split
    · exact .inl ((Steady.sendClosed.sendSchemaPush _ _).before rfl rfl rfl rfl rfl rfl)
    · exact .inl (.fields rfl rfl rfl rfl rfl rfl)

/-- A frame of another leaf is passed on. -/
theorem forwardFrame_steady (s : Remote η) (mac : Mac) (delta : UInt8)
    (hother : f.header.leafMac ≠ s.config.leafMac) : Steady P s (s.forwardFrame P e mac f delta).1 :=
  (Steady.note s (joinHash?_send (f := forwarded P.crypto f delta) (fun hjoin => hother hjoin.2) mac
    (e.sendOk s.radio.effects.length))).after rfl rfl rfl rfl rfl rfl

theorem refreshRoute_steady (s : Remote η) (leafMac nextHopMac : Mac) :
    Steady P s (s.refreshRoute e leafMac nextHopMac) := by
  unfold refreshRoute
  split
  · exact .refl s
  · exact .fields rfl rfl rfl rfl rfl rfl

theorem forwardPacket_steady (s : Remote η) (hother : f.header.leafMac ≠ s.config.leafMac) :
    Steady P s (s.forwardPacket P e f).1 := by
  unfold forwardPacket
  split
  · split
    · exact .refl s
    · exact forwardFrame_steady s _ 0 hother
  · split
    · exact .refl s
    · have hroute := refreshRoute_steady (P := P) (e := e) s f.header.leafMac
      refine (hroute _).trans (forwardFrame_steady _ _ 1 ?_)
      rw [(hroute _).config]
      exact hother

/-- The route but for its candidates matters to no frame's turn. -/
theorem FrameTurn.of_route {x : Route} {r : Remote η × Bool} (hbest : x.bestParent = s.route.bestParent)
    (hpreferred : x.preferredParents = s.route.preferredParents) (hvalid : x.parentValid = s.route.parentValid)
    (h : FrameTurn P e { s with route := x } f senderMac rssi r) : FrameTurn P e s f senderMac rssi r := by
  cases h with
  | steady htype h => exact .steady htype (h.before rfl rfl rfl hbest hpreferred rfl)
  | refused hrefused h hkept =>
    exact .refused hrefused (h.before rfl rfl rfl hbest hpreferred rfl) (hkept.trans hbest)
  | @announced t htype h hkept =>
    have hafter : bestAfter { s with route := x } e senderMac f rssi = s.bestAfter e senderMac f rssi := by
      simp only [bestAfter, candidate, preferredIndex, hbest, hpreferred]
    rw [hafter] at h hkept
    exact .announced htype (h.before rfl rfl rfl rfl hpreferred rfl) hkept
  | reported hasks h =>
    obtain ⟨hpasses, htype, hmac, hjoined, hnew, hrequest, hparent⟩ := hasks
    exact .reported ⟨⟨hpasses.psk, hpasses.hops, hpasses.parent⟩, htype, hmac, hjoined, hnew, hrequest,
      hvalid.symm.trans hparent⟩ (h.before rfl rfl rfl hbest hpreferred rfl)

theorem handleLocally_frameTurn (s : Remote η) (senderMac : Mac) (rssi : Int) (hpasses : s.Passes P f)
    (hown : f.type? = some .schemaRequest → f.header.leafMac = s.config.leafMac) :
    FrameTurn P e s f senderMac rssi (s.handleLocally P e senderMac f rssi) := by
  unfold handleLocally
  split
  next htype => exact .steady (by rw [htype]; nofun) (handleDiscover_steady s senderMac f)
  next htype => exact handleDiscoverAnnounce_frameTurn s htype
  next htype => exact .steady (by rw [htype]; nofun) (handleJoinAck_steady s f)
  next htype => exact .steady (by rw [htype]; nofun) (handleAck_steady s f)
  next htype => exact .steady (by rw [htype]; nofun) (handleCommand_steady s f)
  next htype => exact .steady (by rw [htype]; nofun) (handleConfig_steady s f)
  next htype =>
    rcases handleSchemaRequest_steady (P := P) (e := e) s f with h | ⟨⟨hjoined, hnew, hrequest, hparent⟩, h⟩
    · exact .steady (by rw [htype]; nofun) h
    · exact .reported ⟨hpasses, htype, hown htype, hjoined, hnew, hrequest, hparent⟩ h
  next htype => exact .steady (by rw [htype]; nofun) (handleDeauth_steady s f)
  next htype =>
    split
    · exact .steady (by rw [htype]; nofun) (handleFileTransfer_steady s f)
    · exact .steady (by rw [htype]; nofun) (.refl s)
  next htype =>
    split
    · exact .steady (by rw [htype]; nofun) (handleFileData_steady s f)
    · exact .steady (by rw [htype]; nofun) (.refl s)
  · exact .refused rfl (.refl s) rfl

theorem noteRssi_choice (s : Remote η) (senderMac : Mac) (rssi : Int) :
    ∃ x : Route, s.noteRssi senderMac rssi = { s with route := x } ∧ x.bestParent = s.route.bestParent ∧
      x.preferredParents = s.route.preferredParents ∧ x.parentValid = s.route.parentValid := by
  unfold noteRssi
  split
  · exact ⟨_, rfl, rfl, rfl, rfl⟩
  · exact ⟨s.route, rfl, rfl, rfl, rfl⟩

theorem noteHops_choice (s : Remote η) (f : Frame) :
    ∃ x : Route, s.noteHops f = { s with route := x } ∧ x.bestParent = s.route.bestParent ∧
      x.preferredParents = s.route.preferredParents ∧ x.parentValid = s.route.parentValid := by
  unfold noteHops
  split
  · exact ⟨_, rfl, rfl, rfl, rfl⟩
  · exact ⟨s.route, rfl, rfl, rfl, rfl⟩

/-- A frame is a steady step, unless it asks for the identity or announces a parent. -/
theorem onFrame_frameTurn (s : Remote η) (senderMac : Mac) (f : Frame) (len : Nat) (rssi : Int) :
    FrameTurn P e s f senderMac rssi (s.onFrame P e senderMac f len rssi) := by
  unfold onFrame
  split
  · exact .refused rfl (.refl s) rfl
  next hpsk =>
  split
  · exact .refused rfl (.refl s) rfl
  next hhops =>
  split
  · exact .refused rfl (.refl s) rfl
  next hparent =>
  rw [not_not] at hpsk hparent
  obtain ⟨x, hx, hbest, hpreferred, hvalid⟩ := noteRssi_choice s senderMac rssi
  rw [hx]
  dsimp only
  have hroute : Steady P s { s with route := x } := .fields rfl rfl rfl hbest hpreferred rfl
  split
  · exact .refused rfl hroute hbest
  split
  next hlocal =>
    obtain ⟨x', hx', hbest', hpreferred', hvalid'⟩ := noteHops_choice { s with route := x } f
    rw [hx']
    have hown : f.type? = some .schemaRequest → f.header.leafMac = s.config.leafMac := fun htype => by
      simpa [shouldHandleLocally, htype] using hlocal
    have hlocally := handleLocally_frameTurn (e := e) { s with route := x' } senderMac rssi
      ⟨hpsk, Nat.not_le.1 hhops, hparent⟩ hown
    exact hlocally.of_route (hbest'.trans hbest) (hpreferred'.trans hpreferred) (hvalid'.trans hvalid)
  next hforeign =>
  have hother : f.header.leafMac ≠ s.config.leafMac ∧ f.type? ≠ some .discoverAnnounce := by
    simp only [shouldHandleLocally, Bool.or_eq_true, beq_iff_eq, not_or] at hforeign
    exact ⟨hforeign.1.1, hforeign.2⟩
  split
  · exact .refused rfl hroute hbest
  split
  · unfold handleUpstream
    split
    · exact .refused rfl hroute hbest
    · have hrefresh := refreshRoute_steady (P := P) (e := e) { s with route := x } f.header.leafMac senderMac
      refine .steady hother.2 ((hroute.trans hrefresh).trans (forwardPacket_steady _ ?_))
      rw [hrefresh.config]
      exact hother.1
  · exact .steady hother.2 (hroute.trans (forwardPacket_steady _ hother.1))

end

/-! ## The loop -/

theorem loopFiles_steady (s : Remote η) : Steady P s (s.loopFiles P e) := by
  have hloop := Steady.of_steps (Receiver.loop_owner (x := fileContext P e)
    (fun p _ => .single (Steady.sendClosed.sendAck p _ 0)) s.files s)
  unfold loopFiles
  dsimp only
  generalize s.files.loop (fileContext P e) s = o at hloop ⊢
  obtain ⟨files, t⟩ := o
  split
  · split
    · exact hloop.after rfl rfl rfl rfl rfl rfl
    · split
      · have habort := abortFiles_steady (P := P) (e := e) { t with files := files } abortSessionLost true
        exact (hloop.trans (habort.before rfl rfl rfl rfl rfl rfl)).after rfl rfl rfl rfl rfl rfl
      · exact hloop.after rfl rfl rfl rfl rfl rfl
  · exact hloop.after rfl rfl rfl rfl rfl rfl

theorem flushPendingDiscoverAnnounce_steady (s : Remote η) :
    Steady P s (s.flushPendingDiscoverAnnounce P e) := by
  unfold flushPendingDiscoverAnnounce
  split
  · exact .refl s
  split
  · exact .refl s
  dsimp only
  refine (Steady.note s (joinHash?_send (fun hjoin => ?_) _ _)).after rfl rfl rfl rfl rfl rfl
  have hcode : some PacketType.discoverAnnounce = some .join :=
    (PacketType.ofCode?_code .discoverAnnounce).symm.trans hjoin.1
  cases hcode

theorem housekeeping_steady (s : Remote η) : Steady P s (s.housekeeping P e) := by
  have hprune : Steady P s ((s.pruneRoutes e).prunePendingCommandFragments e) := .fields rfl rfl rfl rfl rfl rfl
  exact hprune.trans ((loopFiles_steady _).trans (flushPendingDiscoverAnnounce_steady _))

theorem loopStart_steady (s : Remote η) : Steady P s (s.loopStart P e).1 := by
  unfold loopStart
  split
  · exact (startDiscoveryCycle_steady _ _ _).before rfl rfl rfl rfl rfl rfl
  split
  · split
    · exact startDiscoveryCycle_steady s _ _
    · exact .refl s
  · exact .refl s

theorem loopTopology_steady (s : Remote η) (wanted : Bool) : Steady P s (s.loopTopology e wanted).1 := by
  unfold loopTopology
  split
  · dsimp only
    split
    · exact .dropped rfl rfl rfl rfl rfl
    · exact .fields rfl rfl rfl rfl rfl rfl
  · exact .refl s

theorem loopResume_steady (s : Remote η) : Steady P s (s.loopResume P e).1 := by
  unfold loopResume
  split
  · refine Steady.trans (t := s.adoptBestParentCandidate true) ?_ (sendHeartbeat_steady _)
    unfold adoptBestParentCandidate
    split
    · exact .refl s
    · exact .fields rfl rfl rfl rfl rfl rfl
  · exact .refl s

theorem loopJoin_steady (s : Remote η) : Steady P s (s.loopJoin P e).1 := by
  unfold loopJoin
  split
  · exact (sendJoin_steady _).before rfl rfl rfl rfl rfl rfl
  · exact .refl s

theorem sendDiscover_steady (s : Remote η) : Steady P s (s.sendDiscover P e).1 := by
  unfold sendDiscover
  dsimp only
  split
  · unfold sendOnChannel
    refine Steady.setDiscoverDue ?_ _
    exact (sendPlain_steady _ _ _ _ _ (show PacketType.discover ≠ .join from nofun)).before rfl rfl rfl rfl rfl rfl
  · exact .fields rfl rfl rfl rfl rfl rfl

theorem loopSweep_steady (s : Remote η) : Steady P s (s.loopSweep P e).1 := by
  unfold loopSweep
  split
  · split
    · exact .fields rfl rfl rfl rfl rfl rfl
    · exact sendDiscover_steady s
  · exact .refl s

theorem loopJoinExhausted_steady (s : Remote η) : Steady P s (s.loopJoinExhausted P e) := by
  unfold loopJoinExhausted
  split
  · exact (startDiscoveryCycle_steady s _ _).setDiscoverDue _
  · exact .refl s

theorem loopStalled_steady (s : Remote η) : Steady P s (s.loopStalled P e).1 := by
  unfold loopStalled
  split
  · exact ((clearSessionState_steady s false).trans (startDiscoveryCycle_steady _ _ _)).setDiscoverDue _
  split
  · exact rejoinDueToTransmitStall_steady s false
  split
  · exact rejoinDueToTransmitStall_steady s false
  split
  · exact rejoinDueToTransmitStall_steady s true
  · exact .refl s

theorem stateTimedOut_steady (s : Remote η) : Steady P s (s.stateTimedOut e) :=
  Steady.trans ((setRecord_steady s s.entities.pendingStateFieldIndex (f := fun r => { r with dirty := true })
    fun _ => rfl)) (.dropped rfl rfl rfl rfl rfl)

theorem loopStateAck_steady (s : Remote η) : Steady P s (s.loopStateAck P e).1 := by
  unfold loopStateAck
  split
  · split
    · split
      · have hsend := (Steady.sendClosed (P := P) (e := e)).sendState s s.entities.pendingStateFieldIndex
          s.entities.pendingStateValue false
        unfold retryState
        generalize s.sendState P e s.entities.pendingStateFieldIndex s.entities.pendingStateValue false =
          o at hsend ⊢
        obtain ⟨t, sent⟩ := o
        cases sent <;> exact hsend.after rfl rfl rfl rfl rfl rfl
      · exact .refl s
    · exact stateTimedOut_steady s
  · exact .refl s

theorem loopHeartbeat_steady (s : Remote η) : Steady P s (s.loopHeartbeat P e).1 := by
  unfold loopHeartbeat
  split
  · dsimp only
    split
    · exact (sendHeartbeat_steady _).before rfl rfl rfl rfl rfl rfl
    · exact .fields rfl rfl rfl rfl rfl rfl
  · exact .refl s

theorem pushDirtyState_steady (s : Remote η) : Steady P s (s.pushDirtyState P e) := by
  unfold pushDirtyState
  split
  · exact .refl s
  split
  · exact .refl s
  next record hrecord =>
    have hsend := (Steady.sendClosed (P := P) (e := e)).sendState s record.schema.entityIndex
      record.currentValue true
    generalize s.sendState P e record.schema.entityIndex record.currentValue true = o at hsend ⊢
    obtain ⟨t, sent⟩ := o
    cases sent with
    | true => exact hsend.after rfl rfl rfl rfl rfl rfl
    | false => exact hsend

theorem andThen_steady {r : Remote η × Bool} {rest : Remote η → Remote η} (h : Steady P s r.1)
    (hrest : ∀ t, Steady P t (rest t)) : Steady P s (andThen r rest) := by
  unfold andThen
  split
  · exact h
  · exact h.trans (hrest _)

theorem loopJoined_steady (s : Remote η) : Steady P s (s.loopJoined P e) := by
  refine andThen_steady (loopStalled_steady s) fun s => andThen_steady (loopStateAck_steady s) fun s => ?_
  split
  · exact .refl s
  · exact andThen_steady (loopHeartbeat_steady s) pushDirtyState_steady

/-- The loop is a steady step. -/
theorem loop_steady (s : Remote η) : Steady P s (s.loop P e) := by
  refine andThen_steady ((housekeeping_steady s).trans (loopStart_steady _)) fun s =>
    andThen_steady (loopTopology_steady s _) fun s => andThen_steady (loopTopology_steady s _) fun s =>
    andThen_steady (loopResume_steady s) fun s => andThen_steady (loopJoin_steady s) fun s =>
    andThen_steady (loopSweep_steady s) fun s => ?_
  have hexhausted := loopJoinExhausted_steady (P := P) (e := e) s
  dsimp only
  split
  · exact hexhausted.trans (loopJoined_steady _)
  · exact hexhausted

/-! ## Whole calls -/

/-- The call brings an announcement that the leaf accepts; its candidate. -/
def announced? (P : Platform η) (s : Remote η) : Call → Option Candidate
  | .frame e senderMac data rssi =>
    match parseFrame data with
    | some f => if f.type? = some .discoverAnnounce ∧ (s.onFrame P e senderMac f data.length rssi).2 then
        some (s.candidate e senderMac (DiscoverAnnounce.parse f.payload) rssi) else none
    | none => none
  | _ => none

/-- The call brings a request for the identity that the leaf answers. -/
def AnswersIdentity (P : Platform η) (s : Remote η) (c : Call) : Prop :=
  ∃ f, c.frame? = some f ∧ s.AsksIdentity P f

/-- What a call does to the schema hash and the choice of a parent. -/
inductive CallTurn (P : Platform η) (s : Remote η) (c : Call) (t : Remote η) : Prop
  | steady (hquiet : s.announced? P c = none) (h : Steady P s t)
  | announced {offer : Candidate} (hoffer : s.announced? P c = some offer)
      (h : Steady P (s.withBest (s.route.bestParent.keepBetter offer)) t)
      (hbest : t.route.bestParent = s.route.bestParent.keepBetter offer)
  | reported (hquiet : s.announced? P c = none) (hanswers : s.AnswersIdentity P c)
      (h : Steady P { s with reported := s.config.identity } t)

/-- So is every call but for those two frames. -/
theorem call_turn (P : Platform η) (s : Remote η) (c : Call) : CallTurn P s c (s.call P c) := by
  cases c with
  | loop e => exact .steady rfl (loop_steady s)
  | stateChange index value => exact .steady rfl (setRecord_steady s index fun _ => rfl)
  | textChange index value => exact .steady rfl (setRecord_steady s index fun _ => rfl)
  | frame e senderMac data rssi =>
    have hcall : s.call P (.frame e senderMac data rssi) = (s.onEspnowFrame P e senderMac data rssi).1 := rfl
    rw [hcall, onEspnowFrame]
    cases hparse : parseFrame data with
    | none =>
      refine .steady ?_ (.refl s)
      simp only [announced?, hparse]
    | some f =>
      have hturn := onFrame_frameTurn (P := P) (e := e) s senderMac f data.length rssi
      have hoffer : s.announced? P (.frame e senderMac data rssi) =
          if f.type? = some .discoverAnnounce ∧ (s.onFrame P e senderMac f data.length rssi).2 then
            some (s.candidate e senderMac (DiscoverAnnounce.parse f.payload) rssi) else none := by
        simp only [announced?, hparse]
      dsimp only
      generalize s.onFrame P e senderMac f data.length rssi = r at hturn hoffer ⊢
      cases hturn with
      | steady htype h => exact .steady (hoffer.trans (if_neg fun hannounce => htype hannounce.1)) h
      | refused hrefused h _ =>
        refine .steady (hoffer.trans (if_neg fun hannounce => ?_)) h
        rw [hrefused] at hannounce
        exact Bool.false_ne_true hannounce.2
      | announced htype h hbest => exact .announced (hoffer.trans (if_pos ⟨htype, rfl⟩)) h hbest
      | reported hasks h =>
        refine .reported (hoffer.trans (if_neg fun hannounce => ?_)) ⟨f, hparse, hasks⟩ h
        rw [hasks.type] at hannounce
        cases hannounce.1

end

end Remote

end EspTree
