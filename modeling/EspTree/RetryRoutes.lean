import EspTree.Bridge.Contact

/-!
# The routes of retries

A queued `COMMAND` and a queued `CONFIG` keep the next hop to their leaf, and so does the session, which notes
the sender of every frame of the leaf.  The loop takes the session's next hop over before it repeats a
`CONFIG`.  A `COMMAND` goes to the next hop with which it was queued, so that a leaf that has moved to another
parent in between is not reached by the retry.

`RetriesFresh` says that whatever the retry queues send in a call of the loop goes to the next hop of the
session; `retries_fresh` says in which runs it holds.
-/

namespace EspTree

open Wire OtaManager

namespace Bridge

/-! ## What is retransmitted -/

/-- The time for the next retry of the command has come, with the jitter of this number. -/
def PendingCommand.Due (e : Env) (p : PendingCommand) (draw : Nat) : Prop :=
  p.retryCount < maxRetries ∧ retryDelayMs p.retryCount (e.random draw) ≤ e.now - p.lastTxMs

/-- The retry queues hand a frame to the radio in a call of the loop. -/
def Retransmits (c : Crypto) (e : Env) (b : Bridge) (mac : Mac) (data : Bytes) : Prop :=
  ∃ new sent, (b.loop c e).hub.effects = new ++ (b.beforeQueues c e).hub.effects ∧ .send mac data sent ∈ new

/-- All of these frames go to the next hop of the session. -/
def RetriesFresh (c : Crypto) (e : Env) (b : Bridge) : Prop :=
  ∀ mac data, b.Retransmits c e mac data →
    ∃ x, (b.beforeQueues c e).session? = some x ∧ mac = x.link.nextHopMac

/-- The commands whose retry is due name the next hop that the session has, if there is one that they could be
sent to. -/
def NamesRoute (b : Bridge) : Call → Prop
  | .loop e => ∀ p ∈ b.hub.commandQueue.zipIdx 2, p.1.Due e p.2 → ∀ x, b.session? = some x → x.online →
      x.sessionKeyValid → p.1.nextHopMac = x.link.nextHopMac
  | _ => True

section

variable {c : Crypto} {e : Env} {h h' h'' : Hub} {x y z : Session} {dst : Mac}

/-! ## The addressee of what is sent -/

/-- All that was handed to the radio went to `dst`. -/
def Hub.SendsTo (dst : Mac) (h h' : Hub) : Prop :=
  ∃ new, h'.effects = new ++ h.effects ∧ ∀ mac data sent, .send mac data sent ∈ new → mac = dst

theorem Hub.SendsTo.quiet (heffects : h'.effects = h.effects) : h.SendsTo dst h' :=
  ⟨[], heffects, fun _ _ _ hin => absurd hin List.not_mem_nil⟩

/-- What two steps send goes to `dst` if it does in each of them. -/
theorem Hub.SendsTo.trans (hs : h.SendsTo dst h') (hs' : h'.SendsTo dst h'') : h.SendsTo dst h'' := by
  obtain ⟨new, hnew, hto⟩ := hs
  obtain ⟨new', hnew', hto'⟩ := hs'
  refine ⟨new' ++ new, by rw [hnew', hnew, List.append_assoc], fun mac data sent hin => ?_⟩
  rcases List.mem_append.1 hin with hin | hin
  · exact hto' mac data sent hin
  · exact hto mac data sent hin

theorem Hub.SendsTo.note (h : Hub) {eff : Effect}
    (heff : ∀ mac data sent, eff = .send mac data sent → mac = dst) : h.SendsTo dst (h.note eff) :=
  ⟨[eff], rfl, fun mac data sent hin => heff mac data sent (List.mem_singleton.1 hin).symm⟩

theorem sendEncryptedWithTxCounterResult_sendsTo (type : PacketType) (hop : UInt8) (tx : UInt32)
    (plaintext : Bytes) :
    h.SendsTo dst (sendEncryptedWithTxCounterResult c e h dst x type hop tx plaintext).1 := by
  unfold sendEncryptedWithTxCounterResult
  split
  · exact .quiet rfl
  split
  · exact .quiet rfl
  split
  · exact .quiet rfl
  unfold sealAndSend
  split
  · exact .quiet rfl
  · have hencrypt : h.SendsTo dst (h.note (.encrypt type x.sessionKey tx plaintext)) := .note h fun _ _ _ => nofun
    refine hencrypt.trans (.note _ fun mac data sent heq => ?_)
    exact (Effect.send.inj heq).1.symm

/-- All fragments of a command go to one next hop. -/
theorem sendCommandLoop_sendsTo (index : UInt8) (value : Bytes) (txBase : UInt32) (consume : Bool)
    (fragSize count left chunk : Nat) :
    h.SendsTo dst (sendCommandLoop c e dst index value txBase consume fragSize count left chunk h x).1 := by
  induction left generalizing chunk h x with
  | zero => exact .quiet rfl
  | succ left ih =>
    rw [sendCommandLoop]
    dsimp only
    generalize (if consume then x.takeTxCounter (txBase + UInt32.ofNat chunk) else x) = y
    have hsent : h.SendsTo dst _ := sendEncryptedWithTxCounterResult_sendsTo (c := c) (e := e) (x := y)
      .command downHop (txBase + UInt32.ofNat chunk) (commandFragment index value fragSize count chunk).bytes
    generalize sendEncryptedWithTxCounterResult c e h dst y .command downHop (txBase + UInt32.ofNat chunk)
      (commandFragment index value fragSize count chunk).bytes = o at hsent ⊢
    split
    · exact hsent.trans (ih (chunk + 1))
    · exact hsent

/-- A configuration goes to the next hop that it keeps. -/
theorem sendConfigFrame_sendsTo (p : PendingConfig) :
    h.SendsTo p.nextHopMac (sendConfigFrame c e h x p).1 := by
  unfold sendConfigFrame
  split
  · exact .quiet rfl
  split
  · exact .quiet rfl
  · exact sendEncryptedWithTxCounterResult_sendsTo _ _ _ _

/-- A `CONFIG` that is sent again goes to the next hop of the session. -/
theorem loopConfig_sendsTo (p : PendingConfig) : h.SendsTo x.link.nextHopMac (loopConfig c e h (some x) p).1 := by
  unfold loopConfig
  split
  · exact .quiet rfl
  split
  · exact .note h fun _ _ _ => nofun
  split
  · exact .note h fun _ _ _ => nofun
  next y hy =>
    obtain ⟨hsome, -⟩ := Option.filter_eq_some_iff.1 hy
    obtain rfl := Option.some.inj hsome
    exact sendConfigFrame_sendsTo _

theorem loopConfig_none (p : PendingConfig) : h.SendsTo dst (loopConfig c e h none p).1 := by
  unfold loopConfig
  split
  · exact .quiet rfl
  split
  · exact .note h fun _ _ _ => nofun
  · exact .note h fun _ _ _ => nofun

/-- The configurations go to the next hop of the session, which the loop takes over before it sends
them. -/
theorem loopConfigs_sendsTo (ps : List PendingConfig) {x? : Option Session}
    (hto : ∀ x, x? = some x → x.link.nextHopMac = dst) : h.SendsTo dst (loopConfigs c e x? ps h).1 := by
  induction ps generalizing h with
  | nil => exact .quiet rfl
  | cons p ps ih =>
    have hfirst : h.SendsTo dst (loopConfig c e h x? p).1 := by
      cases x? with
      | none => exact loopConfig_none p
      | some x =>
        rw [← hto x rfl]
        exact loopConfig_sendsTo p
    exact hfirst.trans ih

/-! ## A command -/

/-- The next hop is the same, and the session can be sent to only if it could before. -/
structure Session.Wanes (x y : Session) : Prop where
  nextHop : y.link.nextHopMac = x.link.nextHopMac
  online : y.online → x.online
  valid : y.sessionKeyValid → x.sessionKeyValid

/-- Nothing has happened to the session. -/
theorem Session.Wanes.refl (x : Session) : x.Wanes x := ⟨rfl, id, id⟩

theorem Session.Wanes.trans (hxy : x.Wanes y) (hyz : y.Wanes z) : x.Wanes z :=
  ⟨hyz.nextHop.trans hxy.nextHop, hxy.online ∘ hyz.online, hxy.valid ∘ hyz.valid⟩

theorem Session.Wanes.of_sends {m m' : Mac} (hs : Sends c ⟨m, h, some x⟩ ⟨m', h', some y⟩)
    (hlink : x.SameLink y) : x.Wanes y := by
  have hvalid : y.sessionKeyValid = x.sessionKeyValid := congrArg Core.sessionKeyValid hs.core
  exact ⟨congrArg LinkInfo.nextHopMac hlink.link, fun hy => hlink.online ▸ hy, fun hy => hvalid ▸ hy⟩

theorem sendCommandLoop_wanes (mac : Mac) (index : UInt8) (value : Bytes) (txBase : UInt32)
    (fragSize count left chunk : Nat) :
    x.Wanes (sendCommandLoop c e mac index value txBase false fragSize count left chunk h x).2.1 := by
  obtain ⟨_, _, hsession⟩ := sendCommandLoop_session (c := c) (e := e) (h := h) (x := x) mac index value
    txBase false fragSize count left chunk
  rw [hsession]
  exact ⟨rfl, id, id⟩

/-- A command that is not due is not sent, and one that is goes to the next hop with which it was queued. -/
theorem loopCommand_sendsTo (p : PendingCommand) (draw : Nat)
    (hto : p.Due e draw → x.online → x.sessionKeyValid → p.nextHopMac = dst) :
    h.SendsTo dst (loopCommand c e h (some x) p draw).1 ∧
      ∀ y, (loopCommand c e h (some x) p draw).2.1 = some y → x.Wanes y := by
  unfold loopCommand
  split
  · refine ⟨.note h fun _ _ _ => nofun, fun y hy => ?_⟩
    obtain rfl := Option.some.inj hy
    exact ⟨rfl, nofun, id⟩
  next hleft =>
  split
  next hdelay =>
    split
    · refine ⟨.quiet rfl, fun y hy => ?_⟩
      obtain rfl := Option.some.inj hy
      exact .refl x
    next z hz =>
      obtain ⟨hsome, hready⟩ := Option.filter_eq_some_iff.1 hz
      obtain rfl := Option.some.inj hsome
      rw [Bool.and_eq_true] at hready
      obtain rfl := hto ⟨UInt8.not_le.1 hleft, hdelay⟩ hready.1 hready.2
      refine ⟨sendCommandLoop_sendsTo _ _ _ _ _ _ _ _, fun y hy => ?_⟩
      obtain rfl := Option.some.inj hy
      exact sendCommandLoop_wanes _ _ _ _ _ _ _ _
  · refine ⟨.quiet rfl, fun y hy => ?_⟩
    obtain rfl := Option.some.inj hy
    exact .refl x

theorem loopCommand_none_hub (p : PendingCommand) (draw : Nat) : (loopCommand c e h none p draw).1 = h := by
  unfold loopCommand
  split
  · rfl
  · split <;> rfl

/-- The commands go to the next hop that they were queued with, so to that of the session if the two
are the same. -/
theorem loopCommands_sendsTo (ps : List (PendingCommand × Nat)) {x? : Option Session}
    (hto : ∀ p ∈ ps, p.1.Due e p.2 → ∀ x, x? = some x → x.online → x.sessionKeyValid →
      p.1.nextHopMac = dst) :
    h.SendsTo dst (loopCommands c e ps h x?).1 := by
  induction ps generalizing h x? with
  | nil => exact .quiet rfl
  | cons p ps ih =>
    obtain ⟨hfirst, hrest⟩ := List.forall_mem_cons.1 hto
    rw [loopCommands]
    cases x? with
    | none =>
      have hhub : h.SendsTo dst (loopCommand c e h none p.1 p.2).1 := .quiet (by rw [loopCommand_none_hub])
      have hnone := loopCommand_none (c := c) (e := e) (h := h) p.1 p.2
      generalize loopCommand c e h none p.1 p.2 = o at hhub hnone ⊢
      obtain ⟨h', x?, kept⟩ := o
      obtain rfl : x? = none := hnone
      exact hhub.trans (ih hrest)
    | some x =>
      obtain ⟨hhub, hwanes⟩ := loopCommand_sendsTo (c := c) (h := h) p.1 p.2 fun hdue => hfirst hdue x rfl
      generalize loopCommand c e h (some x) p.1 p.2 = o at hhub hwanes ⊢
      obtain ⟨h', y?, kept⟩ := o
      refine hhub.trans (ih fun q hq hdue y hy honline hvalid => ?_)
      have hxy := hwanes y hy
      exact hrest q hq hdue x rfl (hxy.online honline) (hxy.valid hvalid)

/-! ## The rest of the loop -/

theorem loopOffline_wanes : x.Wanes (loopOffline e h x).2 := by
  unfold loopOffline
  split
  · exact ⟨rfl, nofun, id⟩
  · exact .refl x

theorem requestSchema_wanes (mac : Mac) (descriptorType index : UInt8) :
    x.Wanes (requestSchema c e h mac x descriptorType index).2.1 :=
  .of_sends (requestSchema_sends (m := x.leafMac) mac descriptorType index) (requestSchema_sameLink ..)

theorem sendJoinComplete_wanes (mac : Mac) (reset : Bool) :
    x.Wanes (sendJoinComplete c e h mac x reset).2.1 :=
  .of_sends (sendJoinComplete_sends (m := x.leafMac) mac reset) (sendJoinComplete_sameLink ..)

theorem loopSchemaRequest_wanes : x.Wanes (loopSchemaRequest c e h x).2 := by
  unfold loopSchemaRequest
  split
  · split
    · have hcount : x.Wanes { x with
          schema := { x.schema with requestRetries := x.schema.requestRetries + 1 } } := ⟨rfl, id, id⟩
      exact hcount.trans (requestSchema_wanes _ _ _)
    · exact ⟨rfl, nofun, nofun⟩
  · exact .refl x

theorem loopStateSync_wanes : x.Wanes (x.loopStateSync e) := by
  unfold Session.loopStateSync
  split <;> exact ⟨rfl, id, id⟩

theorem loopJoinComplete_wanes : x.Wanes (loopJoinComplete c e h x).2 := by
  unfold loopJoinComplete
  split
  · split
    · have hsent := sendJoinComplete_wanes (c := c) (e := e) (h := h) (x := x) x.link.nextHopMac false
      generalize sendJoinComplete c e h x.link.nextHopMac x false = o at hsent ⊢
      obtain ⟨h', y, _ | _⟩ := o
      · exact hsent
      · exact hsent.trans ⟨rfl, id, id⟩
    · exact ⟨rfl, nofun, id⟩
  · exact .refl x

theorem loopDiscoverAnnounce_wanes : x.Wanes (loopDiscoverAnnounce c e h x).2 := by
  unfold loopDiscoverAnnounce
  split
  · exact ⟨rfl, id, id⟩
  · exact .refl x

/-- Before the queues are served a session can only lose what a retry needs: its next hop stays. -/
theorem loopSession_wanes : x.Wanes (loopSession c e h x).2 := by
  unfold loopSession
  have hprune : x.Wanes (x.prune e) := ⟨rfl, id, id⟩
  exact hprune.trans <| loopOffline_wanes.trans <| loopSchemaRequest_wanes.trans <| loopStateSync_wanes.trans <|
    loopJoinComplete_wanes.trans loopDiscoverAnnounce_wanes

/-! ### The queue of commands -/

theorem loopSession_commandQueue : (loopSession c e h x).1.commandQueue = h.commandQueue := by
  have hrequest (h : Hub) (x : Session) : (loopSchemaRequest c e h x).1.commandQueue = h.commandQueue := by
    unfold loopSchemaRequest
    split
    · split
      · exact (requestSchema_sends (m := x.leafMac) _ _ _).kept.2.1
      · rfl
    · rfl
  have hcomplete (h : Hub) (x : Session) : (loopJoinComplete c e h x).1.commandQueue = h.commandQueue := by
    unfold loopJoinComplete
    split
    · split
      · have hsent := (sendJoinComplete_sends (c := c) (e := e) (m := x.leafMac) (h := h) (x := x)
          x.link.nextHopMac false).kept.2.1
        generalize sendJoinComplete c e h x.link.nextHopMac x false = o at hsent ⊢
        obtain ⟨h', y, _ | _⟩ := o
        · exact hsent
        · exact hsent
      · rfl
    · rfl
  have hoffline (h : Hub) (x : Session) : (loopOffline e h x).1.commandQueue = h.commandQueue := by
    unfold loopOffline
    split <;> rfl
  have hslot (h : Hub) : (h.loopSlot e).commandQueue = h.commandQueue := by
    unfold Hub.loopSlot
    split <;> rfl
  have hannounce (h : Hub) (x : Session) : (loopDiscoverAnnounce c e h x).1.commandQueue = h.commandQueue := by
    unfold loopDiscoverAnnounce
    split <;> rfl
  unfold loopSession
  exact (hannounce _ _).trans <| (hslot _).trans <| (hcomplete _ _).trans <| (hrequest _ _).trans (hoffline _ _)

/-- A step of the loop before the retry queues: it leaves the queue of commands alone. -/
structure Wanes (b b' : Bridge) : Prop where
  commandQueue : b'.hub.commandQueue = b.hub.commandQueue
  session : ∀ y, b'.session? = some y → ∃ x, b.session? = some x ∧ x.Wanes y

variable {b b' b'' : Bridge}

theorem Wanes.refl (b : Bridge) : b.Wanes b := ⟨rfl, fun y hy => ⟨y, hy, .refl y⟩⟩

theorem Wanes.trans (h : b.Wanes b') (h' : b'.Wanes b'') : b.Wanes b'' := by
  refine ⟨h'.commandQueue.trans h.commandQueue, fun z hz => ?_⟩
  obtain ⟨y, hy, hyz⟩ := h'.session z hz
  obtain ⟨x, hx, hxy⟩ := h.session y hy
  exact ⟨x, hx, hxy.trans hyz⟩

theorem evict_wanes (b : Bridge) (evicted : Bool) : b.Wanes (if evicted then b.evict else b) := by
  cases evicted with
  | false => exact .refl b
  | true =>
    refine ⟨?_, fun y hy => ?_⟩
    · rw [if_pos rfl]
      unfold evict
      split
      · rfl
      · dsimp only
        split <;> rfl
    · rw [if_pos rfl, evict_session] at hy
      cases hy

theorem loopSession?_wanes (b : Bridge) : b.Wanes (b.loopSession? c e) := by
  unfold loopSession?
  split
  next hnone =>
    refine ⟨?_, fun y hy => ?_⟩
    · show (b.hub.loopSlot e).commandQueue = b.hub.commandQueue
      unfold Hub.loopSlot
      split <;> rfl
    · rw [hnone] at hy
      cases hy
  next x hx =>
    refine ⟨loopSession_commandQueue, fun y hy => ⟨x, hx, ?_⟩⟩
    obtain rfl := Option.some.inj hy
    exact loopSession_wanes

/-- So it is for the bridge, which may also evict the session. -/
theorem beforeQueues_wanes (b : Bridge) : b.Wanes (b.beforeQueues c e) := by
  unfold beforeQueues
  exact (evict_wanes b e.evict).trans ((loopSession?_wanes _).trans (evict_wanes _ e.evictCritical))

/-! ## The retry queues -/

theorem loopConfigs_commandQueue (ps : List PendingConfig) (x? : Option Session) :
    (loopConfigs c e x? ps h).1.commandQueue = h.commandQueue := by
  have hfirst (h : Hub) (p : PendingConfig) : (loopConfig c e h x? p).1.commandQueue = h.commandQueue := by
    unfold loopConfig sendConfigFrame sendEncryptedWithTxCounterResult sealAndSend
    dsimp only
    repeat' split
    all_goals rfl
  induction ps generalizing h with
  | nil => rfl
  | cons p ps ih => exact ih.trans (hfirst h p)

/-- What the retry queues send goes to one next hop, which is that of the session and of the commands that are
due. -/
theorem loopQueues_sendsTo {dst : Mac} (hsession : ∀ x, b.session? = some x → x.link.nextHopMac = dst)
    (hqueue : ∀ p ∈ b.hub.commandQueue.zipIdx 2, p.1.Due e p.2 → ∀ x, b.session? = some x → x.online →
      x.sessionKeyValid → p.1.nextHopMac = dst) : b.hub.SendsTo dst (b.loopQueues c e).hub := by
  unfold loopQueues
  have hconfigs := loopConfigs_sendsTo (c := c) (e := e) (h := b.hub) b.hub.pendingConfigs hsession
  have hkept := loopConfigs_commandQueue (c := c) (e := e) (h := b.hub) b.hub.pendingConfigs b.session?
  generalize loopConfigs c e b.session? b.hub.pendingConfigs b.hub = o at hconfigs hkept ⊢
  obtain ⟨h, configs⟩ := o
  dsimp only at hconfigs hkept ⊢
  rw [← hkept] at hqueue
  have hcommands := loopCommands_sendsTo (c := c) (h := { h with pendingConfigs := configs })
    (h.commandQueue.zipIdx 2) hqueue
  exact hconfigs.trans hcommands

/-- A call of the loop with commands that name the session's next hop. -/
theorem loop_retriesFresh {b : Bridge} (hok : b.NamesRoute (.loop e)) : RetriesFresh c e b := by
  rintro mac data ⟨new, sent, hnew, hin⟩
  have hwanes := beforeQueues_wanes (c := c) (e := e) b
  -- what is sent goes to `dst`, if the session has no other next hop
  have hsent {dst : Mac} (hsession : ∀ y, (b.beforeQueues c e).session? = some y → y.link.nextHopMac = dst) :
      mac = dst := by
    have hqueue : ∀ p ∈ (b.beforeQueues c e).hub.commandQueue.zipIdx 2, p.1.Due e p.2 →
        ∀ y, (b.beforeQueues c e).session? = some y → y.online → y.sessionKeyValid →
          p.1.nextHopMac = dst := by
      intro p hp hdue y hy honline hvalid
      obtain ⟨x, hx, hxy⟩ := hwanes.session y hy
      rw [hwanes.commandQueue] at hp
      rw [hok p hp hdue x hx (hxy.online honline) (hxy.valid hvalid), ← hxy.nextHop, hsession y hy]
    obtain ⟨new', hnew', hto⟩ := loopQueues_sendsTo (c := c) hsession hqueue
    obtain rfl : new = new' := List.append_cancel_right (hnew.symm.trans hnew')
    exact hto mac data sent hin
  cases hy : (b.beforeQueues c e).session? with
  | none =>
    -- without a session nothing is sent at all
    have hzero : mac = Octets.zero 6 := hsent fun y hy' => by rw [hy] at hy'; cases hy'
    have hone : mac = Octets.fit 6 [1] := hsent fun y hy' => by rw [hy] at hy'; cases hy'
    exact absurd (hzero.symm.trans hone) (by decide)
  | some y =>
    refine ⟨y, rfl, hsent fun y' hy' => ?_⟩
    rw [hy] at hy'
    rw [Option.some.inj hy']

/-- In every run in which no command that is due names another next hop than the session, every call of the
loop retransmits to the next hop that the session has then. -/
theorem retries_fresh (c : Crypto) {b₀ : Bridge} {ks ks' : List Call}
    (hok : Transition.Admits NamesRoute (call c) b₀ (ks ++ .loop e :: ks')) :
    RetriesFresh c e (Transition.runFrom (call c) b₀ ks) := by
  induction ks generalizing b₀ with
  | nil => exact loop_retriesFresh hok.1
  | cons k ks ih => exact ih hok.2

end

/-! ## Runs -/

def Effect.addressee? : Effect → Option Mac
  | .send mac _ _ => some mac
  | _ => none

/-- What the queues send in a call of the loop are its retransmissions. -/
theorem retransmits_of_addressee {c : Crypto} {e : Env} {b : Bridge} {new : List Effect} {mac : Mac}
    (hnew : (b.loop c e).hub.effects = new ++ (b.beforeQueues c e).hub.effects)
    (hmac : mac ∈ new.filterMap Effect.addressee?) : ∃ data, b.Retransmits c e mac data := by
  obtain ⟨eff, hin, heff⟩ := List.mem_filterMap.1 hmac
  cases eff with
  | send mac' data sent =>
    obtain rfl := Option.some.inj heff
    exact ⟨data, new, sent, hnew, hin⟩
  | _ => cases heff

/-- A node that the leaf may move to. -/
def newParentMac : Mac := Octets.fit 6 [5]

/-- A command and a configuration command are queued for the leaf. -/
def queuedCalls : List Call :=
  joinCalls ++ [.command (sampleEnv 1300) 0 [1], .configure (sampleEnv 1310) 4 [60, 0, 0, 0]]

/-- The leaf stays where it is. -/
def stayingLeaf : Bridge :=
  Transition.runFrom (call .sample) sample (queuedCalls ++ [receives 1400 (heartbeatFrom 1 4)])

/-- The leaf is heard through another node. -/
def movingLeaf : Bridge := Transition.runFrom (call .sample) sample
  (queuedCalls ++ [.frame (sampleEnv 1400) newParentMac (heartbeatFrom 2 4) (-50)])

/-- A run whose only call of the loop is the last one. -/
theorem admits_of_last_loop {c : Crypto} {e : Env} {b : Bridge} {ks : List Call}
    (hks : ∀ k ∈ ks, ∀ e, k ≠ .loop e) (hlast : (Transition.runFrom (call c) b ks).NamesRoute (.loop e)) :
    Transition.Admits NamesRoute (call c) b (ks ++ [.loop e]) := by
  induction ks generalizing b with
  | nil => exact ⟨hlast, trivial⟩
  | cons k ks ih =>
    obtain ⟨hk, hks⟩ := List.forall_mem_cons.1 hks
    refine ⟨?_, ih hks hlast⟩
    cases k with
    | loop e => exact absurd rfl (hk e)
    | _ => trivial

/-- Both are sent again, to the node that the leaf is under. -/
theorem retries_fresh_stayingLeaf :
    (∃ data, stayingLeaf.Retransmits .sample (sampleEnv 1900) sample.leafMac data) ∧
      RetriesFresh .sample (sampleEnv 1900) stayingLeaf := by
  have hrun : (stayingLeaf.loop .sample (sampleEnv 1900)).hub.effects =
        (stayingLeaf.loop .sample (sampleEnv 1900)).hub.effects.take 4 ++
          (stayingLeaf.beforeQueues .sample (sampleEnv 1900)).hub.effects ∧
      sample.leafMac ∈ ((stayingLeaf.loop .sample (sampleEnv 1900)).hub.effects.take 4).filterMap
        Effect.addressee? ∧
      stayingLeaf.hub.commandQueue.map PendingCommand.nextHopMac = [sample.leafMac] ∧
      stayingLeaf.session?.map (·.link.nextHopMac) = some sample.leafMac := by decide +kernel
  obtain ⟨hnew, hin, hqueue, hsession⟩ := hrun
  have hnames : stayingLeaf.NamesRoute (.loop (sampleEnv 1900)) := by
    intro p hp _ x hx _ _
    have hmac : p.1.nextHopMac ∈ [sample.leafMac] := hqueue ▸ List.mem_map_of_mem (List.fst_mem_of_mem_zipIdx hp)
    rw [hx] at hsession
    rw [List.mem_singleton.1 hmac, ← Option.some.inj hsession]
  have hquiet : ∀ k ∈ queuedCalls ++ [receives 1400 (heartbeatFrom 1 4)], ∀ e, k ≠ .loop e := by
    simp [queuedCalls, joinCalls, receives]
  exact ⟨retransmits_of_addressee hnew hin, retries_fresh .sample (admits_of_last_loop hquiet hnames)⟩

/-- The configuration command follows the leaf, and the command does not. -/
theorem not_retriesFresh_movingLeaf :
    Transition.Reachable Init (fun _ _ => True) (call .sample) movingLeaf ∧
      movingLeaf.session?.map (·.link.nextHopMac) = some newParentMac ∧
      (∃ data, movingLeaf.Retransmits .sample (sampleEnv 1900) newParentMac data) ∧
      (∃ data, movingLeaf.Retransmits .sample (sampleEnv 1900) sample.leafMac data) ∧
      ¬ RetriesFresh .sample (sampleEnv 1900) movingLeaf := by
  have hrun : (movingLeaf.loop .sample (sampleEnv 1900)).hub.effects =
        (movingLeaf.loop .sample (sampleEnv 1900)).hub.effects.take 4 ++
          (movingLeaf.beforeQueues .sample (sampleEnv 1900)).hub.effects ∧
      ((movingLeaf.loop .sample (sampleEnv 1900)).hub.effects.take 4).filterMap Effect.addressee? =
        [sample.leafMac, newParentMac] ∧
      movingLeaf.session?.map (·.link.nextHopMac) = some newParentMac ∧
      (movingLeaf.beforeQueues .sample (sampleEnv 1900)).session?.map (·.link.nextHopMac) =
        some newParentMac := by decide +kernel
  obtain ⟨hnew, hmacs, hsession, hlater⟩ := hrun
  have hreached : Transition.Reachable Init (fun _ _ => True) (call .sample) movingLeaf := by
    have hstart : Transition.Reachable Init (fun _ _ => True) (call .sample) sample := .start sample_init
    exact hstart.runFrom (by simp [Transition.Admits, queuedCalls, joinCalls])
  have hconfig : ∃ data, movingLeaf.Retransmits .sample (sampleEnv 1900) newParentMac data :=
    retransmits_of_addressee hnew (by rw [hmacs]; decide)
  have hcommand : ∃ data, movingLeaf.Retransmits .sample (sampleEnv 1900) sample.leafMac data :=
    retransmits_of_addressee hnew (by rw [hmacs]; decide)
  refine ⟨hreached, hsession, hconfig, hcommand, fun hfresh => ?_⟩
  obtain ⟨data, hdata⟩ := hcommand
  obtain ⟨y, hy, hmac⟩ := hfresh _ data hdata
  rw [hy] at hlater
  exact absurd (hmac.trans (Option.some.inj hlater)) (by decide)

end Bridge

end EspTree
