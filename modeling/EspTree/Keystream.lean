import EspTree.KeyAgreement

/-!
# A key and a counter encrypt one plaintext

`espnow_crypto_crypt` is a stream cipher, so a pair of session key and transmit counter must not
encrypt two plaintexts.  Both ends share the key and count on their own: `Separate` is the condition
under which they do not meet, and under which no end meets itself:

* an end draws no counter at which the other end has encrypted under the same key;
* the counters do not wrap;
* a key that the bridge sets is new to it, and no command waits for its ACK by then;
* a key that the leaf accepts is one that it has not used before its last restart.

The retries of commands and configurations repeat their frames, and need no condition.
-/

namespace EspTree

open Wire

variable {η : Type}

/-- The leaf has encrypted `plaintext` under `key` and `n`. -/
def LeafUses (effects : List Effect) (key : SessionKey) (n : UInt32) (plaintext : Bytes) : Prop :=
  ∃ type, .encrypt type key n plaintext ∈ effects

/-- The bridge has. -/
def BridgeUses (effects : List Bridge.Effect) (key : SessionKey) (n : UInt32) (plaintext : Bytes) :
    Prop :=
  ∃ type, .encrypt type key n plaintext ∈ effects

/-- One plaintext for each key and counter, over both ends. -/
def OnePlaintext (leaf : List Effect) (bridge : List Bridge.Effect) : Prop :=
  ∀ key n p q, (LeafUses leaf key n p ∨ BridgeUses bridge key n p) →
    (LeafUses leaf key n q ∨ BridgeUses bridge key n q) → p = q

section

variable {leaf leaf' : List Effect} {bridge bridge' : List Bridge.Effect}

/-- Uses that were there before do no harm. -/
theorem OnePlaintext.mono (h : OnePlaintext leaf bridge)
    (hleaf : ∀ key n p, LeafUses leaf' key n p → LeafUses leaf key n p)
    (hbridge : ∀ key n p, BridgeUses bridge' key n p → BridgeUses bridge key n p) :
    OnePlaintext leaf' bridge' := fun key n p q hp hq =>
  h key n p q (hp.imp (hleaf _ _ _) (hbridge _ _ _)) (hq.imp (hleaf _ _ _) (hbridge _ _ _))

/-- A use that agrees with those before it. -/
theorem OnePlaintext.insert (h : OnePlaintext leaf bridge) (key : SessionKey) (n : UInt32) (p : Bytes)
    (hnew : ∀ key' n' p', (LeafUses leaf' key' n' p' ∨ BridgeUses bridge' key' n' p') →
      (key' = key ∧ n' = n ∧ p' = p) ∨ LeafUses leaf key' n' p' ∨ BridgeUses bridge key' n' p')
    (hagree : ∀ q, (LeafUses leaf key n q ∨ BridgeUses bridge key n q) → q = p) :
    OnePlaintext leaf' bridge' := by
  intro key' n' p' q' hp hq
  rcases hnew _ _ _ hp with ⟨rfl, rfl, rfl⟩ | hp'
  · rcases hnew _ _ _ hq with ⟨-, -, rfl⟩ | hq'
    · rfl
    · exact (hagree q' hq').symm
  · rcases hnew _ _ _ hq with ⟨rfl, rfl, rfl⟩ | hq'
    · exact hagree p' hp'
    · exact h _ _ _ _ hp' hq'

variable {key : SessionKey} {n : UInt32} {p : Bytes}

/-- A use in a log is its newest entry, or an older one. -/
theorem leafUses_cons {type : PacketType} {key' : SessionKey} {n' : UInt32} {p' : Bytes}
    (h : LeafUses (.encrypt type key n p :: leaf) key' n' p') :
    (key' = key ∧ n' = n ∧ p' = p) ∨ LeafUses leaf key' n' p' := by
  obtain ⟨type', hmem⟩ := h
  rcases List.mem_cons.mp hmem with heq | hmem
  · obtain ⟨-, rfl, rfl, rfl⟩ := Effect.encrypt.inj heq
    exact .inl ⟨rfl, rfl, rfl⟩
  · exact .inr ⟨type', hmem⟩

theorem bridgeUses_cons {type : PacketType} {key' : SessionKey} {n' : UInt32} {p' : Bytes}
    (h : BridgeUses (.encrypt type key n p :: bridge) key' n' p') :
    (key' = key ∧ n' = n ∧ p' = p) ∨ BridgeUses bridge key' n' p' := by
  obtain ⟨type', hmem⟩ := h
  rcases List.mem_cons.mp hmem with heq | hmem
  · obtain ⟨-, rfl, rfl, rfl⟩ := Bridge.Effect.encrypt.inj heq
    exact .inl ⟨rfl, rfl, rfl⟩
  · exact .inr ⟨type', hmem⟩

end

/-! ## The condition -/

namespace Remote

/-- The keys under which a leaf may encrypt in a call: its own, and the one that it accepts. -/
def MayUse (P : Platform η) (s : Remote η) (c : Call) (key : SessionKey) : Prop :=
  key = s.session.sessionKey ∨ ∃ f, c.frame? = some f ∧ s.Accepts f ∧
    key = P.crypto.deriveSessionKey (JoinAck.parse f.payload).bridgeNonce s.session.remoteNonce

end Remote

namespace Bridge

/-- The key that a call sets, when it brings a `JOIN` that is not a repetition. -/
def Rekeys (c : Crypto) (b : Bridge) (k : Call) (key : SessionKey) : Prop :=
  ∃ e senderMac data rssi f, k = .frame e senderMac data rssi ∧ parsePacket c data = some f ∧
    f.type? = some .join ∧ ¬ b.ensureSession.Repeats (Join.parse f.payload) ∧
    key = c.deriveSessionKey e.nonce (Join.parse f.payload).remoteNonce

/-- The keys under which the bridge may encrypt in a call. -/
def MayUse (c : Crypto) (b : Bridge) (k : Call) (key : SessionKey) : Prop :=
  key = b.ensureSession.sessionKey ∨ Rekeys c b k key

/-- The counters from `b`'s present one to the last one that the call draws. -/
def Draws (b b' : Bridge) (n : UInt32) : Prop :=
  b.ensureSession.txCounter.toNat ≤ n.toNat ∧ n.toNat ≤ lastDrawn b b'

end Bridge

namespace Link

/-- The condition on an event; the history is what the leaf did before its last restart. -/
def Separate (P : Remote.Platform η) (s : Link η × List Effect) : Event η → Prop
  | .leaf c =>
      (s.1.leaf.call P c).radio.drawn + 1 < 2 ^ 32 ∧
      (∀ f, c.frame? = some f → s.1.leaf.Accepts f → ∀ n p, ¬ LeafUses s.2
        (P.crypto.deriveSessionKey (JoinAck.parse f.payload).bridgeNonce s.1.leaf.session.remoteNonce)
        n p) ∧
      ∀ key, s.1.leaf.MayUse P c key → ∀ n p, BridgeUses s.1.bridge.hub.effects key n p →
        ¬ (s.1.leaf.radio.txCounter ≤ n ∧ n < (s.1.leaf.call P c).radio.txCounter)
  | .bridge k =>
      Bridge.lastDrawn s.1.bridge (s.1.bridge.call P.crypto k) + 1 < 2 ^ 32 ∧
      (∀ key, Bridge.Rekeys P.crypto s.1.bridge k key → s.1.bridge.hub.commandQueue = [] ∧
        s.1.bridge.hub.pendingConfigs = [] ∧ ∀ n p, ¬ BridgeUses s.1.bridge.hub.effects key n p) ∧
      ∀ key, Bridge.MayUse P.crypto s.1.bridge k key → ∀ n p, LeafUses s.1.leaf.radio.effects key n p →
        ¬ Bridge.Draws s.1.bridge (s.1.bridge.call P.crypto k) n
  | ev => ev.Possible

/-- The history: what the leaf had done when it restarted last. -/
def stepPast (P : Remote.Platform η) :
    Link η × List Effect → Event η → Link η × List Effect :=
  Transition.recording (step P) fun l ev _ past =>
    match ev with
    | .restartLeaf _ => l.leaf.radio.effects
    | _ => past

/-- The runs whose events all meet the condition. -/
abbrev SeparateReachable (P : Remote.Platform η) : Link η × List Effect → Prop :=
  Transition.Reachable (fun s => s.1.Init ∧ s.2 = []) (Separate P) (stepPast P)

end Link

/-! ## The leaf -/

namespace Remote

variable {P : Platform η} {c : Call} {s₀ s t : Remote η}

theorem Move.drawn_le (hmove : Move P c s₀ s t) : s.radio.drawn ≤ t.radio.drawn := by
  cases hmove with
  | radio r _ hdrawn _ => exact hdrawn.ge
  | bump | encrypt => exact Nat.le_succ _
  | _ => exact le_rfl

/-- A leaf never gives back a counter that it has drawn. -/
theorem Moves.drawn_le (hmoves : Moves P c s₀ s t) : s.radio.drawn ≤ t.radio.drawn := by
  induction hmoves with
  | refl => exact le_rfl
  | tail _ hmove ih => exact ih.trans hmove.drawn_le

/-- Between two calls: the counter has not wrapped, all that was encrypted since the last restart
was encrypted under smaller counters, and the key is not from before. -/
structure Stream (past : List Effect) (s : Remote η) : Prop where
  flags : s.Flags
  counter : s.radio.txCounter = UInt32.ofNat (s.radio.drawn + 1)
  below : ∀ key n p, LeafUses s.radio.effects key n p →
    LeafUses past key n p ∨ n.toNat ≤ s.radio.drawn
  keyed : s.session.joined → ∀ n p, ¬ LeafUses past s.session.sessionKey n p

/-- In the course of a call `c` from `s₀`. -/
structure Streaming (P : Platform η) (c : Call) (s₀ : Remote η) (past : List Effect)
    (bridge : List Bridge.Effect) (s : Remote η) : Prop extends Stream past s where
  grown : s₀.radio.drawn ≤ s.radio.drawn
  key : s₀.MayUse P c s.session.sessionKey
  unique : OnePlaintext s.radio.effects bridge

variable {past : List Effect} {bridge : List Bridge.Effect}

/-- A change that encrypts nothing and sets no key. -/
theorem Streaming.congr (h : Streaming P c s₀ past bridge s) (hflags : t.Flags)
    (htx : t.radio.txCounter = s.radio.txCounter) (hdrawn : t.radio.drawn = s.radio.drawn)
    (heff : ∀ key n p, LeafUses t.radio.effects key n p → LeafUses s.radio.effects key n p)
    (hjoined : t.session.joined → s.session.joined)
    (hkey : t.session.sessionKey = s.session.sessionKey) : Streaming P c s₀ past bridge t where
  flags := hflags
  counter := by rw [htx, hdrawn, h.counter]
  below key n p hu := by
    rw [hdrawn]
    exact h.below key n p (heff key n p hu)
  keyed hj := by
    rw [hkey]
    exact h.keyed (hjoined hj)
  grown := by
    rw [hdrawn]
    exact h.grown
  key := by
    rw [hkey]
    exact h.key
  unique := h.unique.mono heff (fun _ _ _ => id)

/-- An effect that is not an encryption. -/
theorem leafUses_of_cons {eff : Effect} {effects : List Effect}
    (heff : ∀ type key n p, eff ≠ .encrypt type key n p) (key : SessionKey) (n : UInt32) (p : Bytes)
    (h : LeafUses (eff :: effects) key n p) : LeafUses effects key n p := by
  obtain ⟨type, hmem⟩ := h
  rcases List.mem_cons.mp hmem with heq | hmem
  · exact absurd heq.symm (heff type key n p)
  · exact ⟨type, hmem⟩

/-- The next counter, as long as it has not wrapped. -/
theorem Stream.toNat_counter (h : Stream past s) (hwrap : s.radio.drawn + 1 < 2 ^ 32) :
    s.radio.txCounter.toNat = s.radio.drawn + 1 := by
  rw [h.counter]
  exact UInt32.toNat_ofNat_of_lt' hwrap

/-- The counter after a draw. -/
theorem counter_succ (h : s.radio.txCounter = UInt32.ofNat (s.radio.drawn + 1)) :
    s.radio.txCounter + 1 = UInt32.ofNat (s.radio.drawn + 1 + 1) := by
  rw [h]
  exact (UInt32.ofNat_add _ 1).symm

/-- Encrypting under the next counter: it is larger than all that were used since the restart, and the
bridge has not used it. -/
theorem Streaming.encrypt (hwrap : (s₀.call P c).radio.drawn + 1 < 2 ^ 32) (h₀ : Stream past s₀)
    (hcross : ∀ key, s₀.MayUse P c key → ∀ n p, BridgeUses bridge key n p →
      ¬ (s₀.radio.txCounter ≤ n ∧ n < (s₀.call P c).radio.txCounter))
    (hfinal : (s₀.call P c).radio.txCounter = UInt32.ofNat ((s₀.call P c).radio.drawn + 1))
    (h : Streaming P c s₀ past bridge s) (type : PacketType) (plaintext : Bytes)
    (hjoined : s.session.joined)
    (hflags : (s.note (.encrypt type s.session.sessionKey s.radio.txCounter plaintext)).bumpTxCounter.Flags)
    (hrest : Moves P c s₀
      (s.note (.encrypt type s.session.sessionKey s.radio.txCounter plaintext)).bumpTxCounter
      (s₀.call P c)) :
    Streaming P c s₀ past bridge
      (s.note (.encrypt type s.session.sessionKey s.radio.txCounter plaintext)).bumpTxCounter := by
  have hlast : s.radio.drawn + 1 ≤ (s₀.call P c).radio.drawn := hrest.drawn_le
  have hn : s.radio.txCounter.toNat = s.radio.drawn + 1 := h.toNat_counter (by omega)
  refine ⟨⟨hflags, counter_succ h.counter, fun key n p hu => ?_, h.keyed⟩, h.grown.trans (Nat.le_succ _),
    h.key, ?_⟩
  · rcases leafUses_cons hu with ⟨-, rfl, -⟩ | hu
    · exact .inr hn.le
    · exact (h.below key n p hu).imp id (Nat.le_succ_of_le ·)
  · refine h.unique.insert s.session.sessionKey s.radio.txCounter plaintext (fun _ _ _ hu => ?_)
      (fun q hq => absurd hq ?_)
    · rcases hu with hu | hu
      · exact (leafUses_cons hu).imp id .inl
      · exact .inr (.inr hu)
    · rintro (hq | hq)
      · -- the leaf itself: an older use is from before the restart or has a smaller counter
        rcases h.below _ _ _ hq with hpast | hle
        · exact h.keyed hjoined _ _ hpast
        · omega
      · -- the bridge: the counter is drawn in this call
        have hgrown := h.grown
        refine hcross _ h.key _ _ hq ⟨?_, ?_⟩
        · rw [UInt32.le_iff_toNat_le, hn, h₀.toNat_counter (by omega)]
          omega
        · rw [UInt32.lt_iff_toNat_lt, hn, hfinal, UInt32.toNat_ofNat_of_lt' hwrap]
          omega

/-- A move of the leaf encrypts only at a counter that it has just drawn, or what it has encrypted
there before. -/
theorem Streaming.move (hwrap : (s₀.call P c).radio.drawn + 1 < 2 ^ 32) (h₀ : Stream past s₀)
    (hnew : ∀ f, c.frame? = some f → s₀.Accepts f → ∀ n p, ¬ LeafUses past
      (P.crypto.deriveSessionKey (JoinAck.parse f.payload).bridgeNonce s₀.session.remoteNonce) n p)
    (hcross : ∀ key, s₀.MayUse P c key → ∀ n p, BridgeUses bridge key n p →
      ¬ (s₀.radio.txCounter ≤ n ∧ n < (s₀.call P c).radio.txCounter))
    (hfinal : (s₀.call P c).radio.txCounter = UInt32.ofNat ((s₀.call P c).radio.drawn + 1))
    (h : Streaming P c s₀ past bridge s) (hmove : Move P c s₀ s t)
    (hrest : Moves P c s₀ t (s₀.call P c)) : Streaming P c s₀ past bridge t := by
  have hflags := h.flags.move hmove
  have hother (eff : Effect) (heff : ∀ type key n p, eff ≠ .encrypt type key n p) (key : SessionKey)
      (n : UInt32) (p : Bytes) (hu : LeafUses (eff :: s.radio.effects) key n p) :
      LeafUses s.radio.effects key n p := leafUses_of_cons heff key n p hu
  cases hmove with
  | radio r htx hdrawn heff =>
    exact h.congr hflags htx hdrawn (fun _ _ _ hu => heff ▸ hu) id rfl
  | bump =>
    exact ⟨⟨hflags, counter_succ h.counter,
      fun key n p hu => (h.below key n p hu).imp id (Nat.le_succ_of_le ·), h.keyed⟩,
      h.grown.trans (Nat.le_succ _), h.key, h.unique⟩
  | encrypt type plaintext hjoined _ =>
    exact h.encrypt hwrap h₀ hcross hfinal type plaintext hjoined hflags hrest
  | accept f hf haccepts hsame =>
    have hkey : s₀.MayUse P c (P.crypto.deriveSessionKey (JoinAck.parse f.payload).bridgeNonce
        s.session.remoteNonce) := .inr ⟨f, hf, haccepts, by rw [hsame]⟩
    refine ⟨⟨hflags, h.counter, h.below, fun _ n p hu => ?_⟩, h.grown, hkey, h.unique⟩
    refine hnew f hf haccepts n p ?_
    rw [← hsame]
    exact hu
  | resume hdisc hresume =>
    exact h.congr hflags rfl rfl (fun _ _ _ => id)
      (fun _ => h.flags.resuming hdisc (.inl hresume)) rfl
  | clear preserveRoute =>
    exact h.congr hflags rfl rfl (fun _ _ _ => id)
      (fun hj => absurd hj Bool.false_ne_true) rfl
  | send mac data sent =>
    exact h.congr hflags rfl rfl (hother _ (by simp)) id rfl
  | reboot => exact h.congr hflags rfl rfl (hother _ (by simp)) id rfl
  | push e index record base value _ hwait hrecord hvalue =>
    exact h.congr hflags rfl rfl
      (hother (.stateMessage _ _ _) (by simp)) id rfl
  | resend e record base hwait hrecord =>
    exact h.congr hflags rfl rfl
      (hother (.stateMessage _ _ _) (by simp)) id rfl
  | stateAcked e hwait =>
    exact h.congr hflags rfl rfl (hother (.stateAcked _) (by simp)) id rfl
  | command f command plaintext record a hf htype hopen hparse hkey hsame hrecord hnew =>
    exact h.congr hflags
      rfl rfl (hother (.command _ _ _ _ _) (by simp)) id rfl
  | configured f command hf hseen =>
    exact h.congr hflags rfl rfl (hother (.config _ _ _) (by simp)) id rfl
  | _ => exact ⟨⟨hflags, h.counter, h.below, h.keyed⟩, h.grown, h.key, h.unique⟩

/-- The counter follows the number of draws through every call. -/
theorem Move.counter (hmove : Move P c s₀ s t)
    (h : s.radio.txCounter = UInt32.ofNat (s.radio.drawn + 1)) :
    t.radio.txCounter = UInt32.ofNat (t.radio.drawn + 1) := by
  cases hmove with
  | radio r htx hdrawn _ =>
    change r.txCounter = UInt32.ofNat (r.drawn + 1)
    rw [htx, hdrawn, h]
  | bump | encrypt => exact counter_succ h
  | _ => exact h

/-- A call that meets the condition. -/
theorem Stream.call (h : Stream past s) (hunique : OnePlaintext s.radio.effects bridge)
    (hwrap : (s.call P c).radio.drawn + 1 < 2 ^ 32)
    (hnew : ∀ f, c.frame? = some f → s.Accepts f → ∀ n p, ¬ LeafUses past
      (P.crypto.deriveSessionKey (JoinAck.parse f.payload).bridgeNonce s.session.remoteNonce) n p)
    (hcross : ∀ key, s.MayUse P c key → ∀ n p, BridgeUses bridge key n p →
      ¬ (s.radio.txCounter ≤ n ∧ n < (s.call P c).radio.txCounter)) :
    Stream past (s.call P c) ∧ OnePlaintext (s.call P c).radio.effects bridge := by
  have hfinal : (s.call P c).radio.txCounter = UInt32.ofNat ((s.call P c).radio.drawn + 1) :=
    call_invariant (I := fun t : Remote η => t.radio.txCounter = UInt32.ofNat (t.radio.drawn + 1))
      (fun _ _ ht hmove => hmove.counter ht) h.counter
  have hstart : Streaming P c s past bridge s := ⟨h, le_rfl, .inl rfl, hunique⟩
  have hend : Streaming P c s past bridge (s.call P c) :=
    Transition.steps_invariant (call_moves P s c)
      (fun _ _ ht hmove hrest => ht.move hwrap h hnew hcross hfinal hmove hrest) hstart
  exact ⟨hend.toStream, hend.unique⟩

/-- A restart: what was done before is the past now, and all keys are forgotten. -/
theorem stream_restart {fresh : Remote η} (hfresh : fresh.Registered) :
    Stream s.radio.effects (s.restart fresh) := by
  obtain ⟨hsession, hdiscovery, -, hradio⟩ := hfresh.session
  refine ⟨⟨fun hn => ?_, fun _ hr => ?_⟩, ?_, fun key n p hu => .inl hu, fun hj => ?_⟩
  · rw [restart, hsession] at hn
    cases hn
  · rw [restart, hdiscovery] at hr
    rcases hr with hr | hr <;> cases hr
  · rw [restart, hradio]
    rfl
  · rw [restart, hsession] at hj
    cases hj

end Remote

/-! ## The bridge -/

namespace Bridge

variable {c : Crypto} {k : Call} {b₀ b b' : Bridge} {h h' : Hub} {x x' : Session}

/-- For a session with a key: all that was encrypted under it was encrypted under smaller counters,
and the queues hold what was. -/
structure Keyed (h : Hub) (x : Session) : Prop where
  below : ∀ n p, BridgeUses h.effects x.sessionKey n p → n.toNat ≤ x.drawn
  commands : ∀ q ∈ h.commandQueue, ∀ n < chunkCount q.value.length x.limits.maxEntityFragment,
    .encrypt .command x.sessionKey (q.txBase + UInt32.ofNat n)
      (x.fragmentBytes q.fieldIndex q.value n) ∈ h.effects
  configs : ∀ q ∈ h.pendingConfigs,
    .encrypt .config x.sessionKey q.txBase (configBytes q.command q.payload) ∈ h.effects

/-- Between two calls. -/
structure Stream (b : Bridge) : Prop where
  counter : ∀ x, b.session? = some x → x.txCounter = UInt32.ofNat (x.drawn + 1)
  keyed : ∀ x, b.session? = some x → x.sessionKeyValid → Keyed b.hub x

theorem Stream.counter_ensure (hs : Stream b) :
    b.ensureSession.txCounter = UInt32.ofNat (b.ensureSession.drawn + 1) := by
  unfold ensureSession
  cases hx : b.session? with
  | none => rfl
  | some x => exact hs.counter x hx

/-- In the course of a call `k` from `b₀`. -/
structure Streaming (c : Crypto) (k : Call) (b₀ : Bridge) (leaf : List EspTree.Effect) (b : Bridge) :
    Prop extends Stream b where
  grown : ∀ x, b.session? = some x → b₀.ensureSession.drawn ≤ x.drawn
  key : ∀ x, b.session? = some x → x.sessionKeyValid → MayUse c b₀ k x.sessionKey
  unique : OnePlaintext leaf b.hub.effects

/-- `x'` is `x` after some draws, or without its key. -/
structure Later (x x' : Session) : Prop where
  key : x'.sessionKey = x.sessionKey
  limits : x'.limits = x.limits
  valid : x'.sessionKeyValid → x.sessionKeyValid
  drawn : x.drawn ≤ x'.drawn
  counter : x.txCounter = UInt32.ofNat (x.drawn + 1) → x'.txCounter = UInt32.ofNat (x'.drawn + 1)

/-- Nothing has happened to the session. -/
theorem Later.refl (x : Session) : Later x x := ⟨rfl, rfl, id, le_rfl, id⟩

theorem Later.of_core (hcore : x'.core = x.core) : Later x x' where
  key := congrArg Core.sessionKey hcore
  limits := congrArg Core.limits hcore
  valid hv := (congrArg Core.sessionKeyValid hcore).symm.trans hv
  drawn := (congrArg Core.drawn hcore).ge
  counter h := by
    have htx : x'.txCounter = x.txCounter := congrArg Core.txCounter hcore
    have hdrawn : x'.drawn = x.drawn := congrArg Core.drawn hcore
    rw [htx, hdrawn, h]

/-- A counter has been drawn from it. -/
theorem Later.bump (x : Session) : Later x x.bumpTxCounter := by
  refine ⟨rfl, rfl, id, Nat.le_succ _, fun h => ?_⟩
  change x.txCounter + 1 = _
  rw [h]
  exact (UInt32.ofNat_add _ 1).symm

/-- The queues hold the same messages or fewer. -/
structure Hub.Holds (h h' : Hub) : Prop where
  commands : ∀ p ∈ h'.commandQueue, ∃ q ∈ h.commandQueue, p.content = q.content
  configs : ∀ p ∈ h'.pendingConfigs, ∃ q ∈ h.pendingConfigs, p.content = q.content

theorem Hub.Holds.of_eq (hcommands : h'.commandQueue = h.commandQueue)
    (hconfigs : h'.pendingConfigs = h.pendingConfigs) : h.Holds h' := by
  constructor
  · intro p hp
    exact ⟨p, hcommands ▸ hp, rfl⟩
  · intro p hp
    exact ⟨p, hconfigs ▸ hp, rfl⟩

theorem Keyed.later (hk : Keyed h x) (hlater : Later x x')
    (hbelow : ∀ n p, BridgeUses h'.effects x.sessionKey n p → n.toNat ≤ x'.drawn)
    (heff : h.effects ⊆ h'.effects) (hqueues : h.Holds h') : Keyed h' x' where
  below n p hu := by
    rw [hlater.key] at hu
    exact hbelow n p hu
  commands p hp n hn := by
    obtain ⟨q, hq, hpq⟩ := hqueues.commands p hp
    simp only [PendingCommand.content, Prod.mk.injEq] at hpq
    obtain ⟨hindex, hvalue, hbase⟩ := hpq
    rw [hlater.limits, hvalue] at hn
    rw [hlater.key, hindex, hvalue, hbase, Session.fragmentBytes, hlater.limits]
    exact heff (hk.commands q hq n hn)
  configs p hp := by
    obtain ⟨q, hq, hpq⟩ := hqueues.configs p hp
    simp only [PendingConfig.content, Prod.mk.injEq] at hpq
    obtain ⟨hcommand, hpayload, hbase⟩ := hpq
    rw [hlater.key, hcommand, hpayload, hbase]
    exact heff (hk.configs q hq)

variable {leaf : List EspTree.Effect} {m : Mac}

/-- A change that encrypts nothing new and sets no key. -/
theorem Streaming.later (hs : Streaming c k b₀ leaf b)
    (huses : ∀ key n p, BridgeUses b'.hub.effects key n p → BridgeUses b.hub.effects key n p)
    (heff : b.hub.effects ⊆ b'.hub.effects) (hqueues : b.hub.Holds b'.hub)
    (hsession : ∀ x', b'.session? = some x' → ∃ x, b.session? = some x ∧ Later x x') :
    Streaming c k b₀ leaf b' where
  counter x' hx' := by
    obtain ⟨x, hx, hlater⟩ := hsession x' hx'
    exact hlater.counter (hs.counter x hx)
  keyed x' hx' hv := by
    obtain ⟨x, hx, hlater⟩ := hsession x' hx'
    have hk := hs.keyed x hx (hlater.valid hv)
    exact hk.later hlater (fun n p hu => (hk.below n p (huses _ n p hu)).trans hlater.drawn) heff
      hqueues
  grown x' hx' := by
    obtain ⟨x, hx, hlater⟩ := hsession x' hx'
    exact (hs.grown x hx).trans hlater.drawn
  key x' hx' hv := by
    obtain ⟨x, hx, hlater⟩ := hsession x' hx'
    rw [hlater.key]
    exact hs.key x hx (hlater.valid hv)
  unique := hs.unique.mono (fun _ _ _ => id) huses

/-- An effect that is not an encryption. -/
theorem bridgeUses_of_cons {eff : Effect} {effects : List Effect}
    (heff : ∀ type key n p, eff ≠ .encrypt type key n p) (key : SessionKey) (n : UInt32) (p : Bytes)
    (hu : BridgeUses (eff :: effects) key n p) : BridgeUses effects key n p := by
  obtain ⟨type, hmem⟩ := hu
  rcases List.mem_cons.mp hmem with heq | hmem
  · exact absurd heq.symm (heff type key n p)
  · exact ⟨type, hmem⟩

/-- Repeating what was encrypted before. -/
theorem bridgeUses_repeat {type : PacketType} {key : SessionKey} {n : UInt32} {p : Bytes}
    {effects : List Effect} (hmem : .encrypt type key n p ∈ effects) (key' : SessionKey) (n' : UInt32)
    (p' : Bytes) (hu : BridgeUses (.encrypt type key n p :: effects) key' n' p') :
    BridgeUses effects key' n' p' := by
  rcases bridgeUses_cons hu with ⟨rfl, rfl, rfl⟩ | hu
  · exact ⟨type, hmem⟩
  · exact hu

theorem toNat_counter (htx : x.txCounter = UInt32.ofNat (x.drawn + 1)) (hwrap : x.drawn + 1 < 2 ^ 32) :
    x.txCounter.toNat = x.drawn + 1 := by
  rw [htx]
  exact UInt32.toNat_ofNat_of_lt' hwrap

/-- Encrypting under the next counter: it is larger than all that were used, and the leaf has not
used it. -/
theorem Streaming.encrypt (hwrap : lastDrawn b₀ (b₀.call c k) + 1 < 2 ^ 32) (h₀ : Stream b₀)
    (hcross : ∀ key, MayUse c b₀ k key → ∀ n p, LeafUses leaf key n p →
      ¬ Draws b₀ (b₀.call c k) n)
    (hs : Streaming c k b₀ leaf ⟨m, h, some x⟩) (type : PacketType) (plaintext : Bytes)
    (hvalid : x.sessionKeyValid)
    (hrest : Moves c k b₀
      ⟨m, h.note (.encrypt type x.sessionKey x.txCounter plaintext), some x.bumpTxCounter⟩
      (b₀.call c k)) :
    Streaming c k b₀ leaf
      ⟨m, h.note (.encrypt type x.sessionKey x.txCounter plaintext), some x.bumpTxCounter⟩ := by
  have hlast : x.drawn + 1 ≤ lastDrawn b₀ (b₀.call c k) := Moves.drawn_le hrest rfl
  have hn : x.txCounter.toNat = x.drawn + 1 := toNat_counter (hs.counter x rfl) (by omega)
  have hk := hs.keyed x rfl hvalid
  refine ⟨⟨fun x' hx' => ?_, fun x' hx' _ => ?_⟩, fun x' hx' => ?_, fun x' hx' _ => ?_, ?_⟩
  · cases hx'
    exact (Later.bump x).counter (hs.counter x rfl)
  · cases hx'
    refine hk.later (.bump x) (fun n p hu => ?_) (List.subset_cons_self _ _) (.of_eq rfl rfl)
    rcases bridgeUses_cons hu with ⟨-, rfl, -⟩ | hu
    · exact hn.le
    · exact (hk.below n p hu).trans (Nat.le_succ _)
  · cases hx'
    exact (hs.grown x rfl).trans (Nat.le_succ _)
  · cases hx'
    exact hs.key x rfl hvalid
  · refine hs.unique.insert x.sessionKey x.txCounter plaintext (fun _ _ _ hu => ?_)
      (fun q hq => absurd hq ?_)
    · rcases hu with hu | hu
      · exact .inr (.inl hu)
      · exact (bridgeUses_cons hu).imp id .inr
    · rintro (hq | hq)
      · -- the leaf: the counter is drawn in this call
        have hgrown := hs.grown x rfl
        refine hcross _ (hs.key x rfl hvalid) _ _ hq ⟨?_, ?_⟩
        · rw [hn, toNat_counter h₀.counter_ensure (by omega)]
          exact Nat.succ_le_succ hgrown
        · rw [hn]
          exact hlast
      · -- the bridge itself: an older use has a smaller counter
        have hle := hk.below _ _ hq
        omega

/-- So does a move of the bridge, for each of its sessions. -/
theorem Streaming.move (hwrap : lastDrawn b₀ (b₀.call c k) + 1 < 2 ^ 32) (h₀ : Stream b₀)
    (hrekey : ∀ key, Rekeys c b₀ k key → b₀.hub.commandQueue = [] ∧ b₀.hub.pendingConfigs = [] ∧
      ∀ n p, ¬ BridgeUses b₀.hub.effects key n p)
    (hcross : ∀ key, MayUse c b₀ k key → ∀ n p, LeafUses leaf key n p →
      ¬ Draws b₀ (b₀.call c k) n)
    (hs : Streaming c k b₀ leaf b) (hmove : Move c k b₀ b b')
    (hrest : Moves c k b₀ b' (b₀.call c k)) : Streaming c k b₀ leaf b' := by
  have hkept {h : Hub} : h.Holds h := .of_eq rfl rfl
  cases hmove with
  | send hsend =>
    cases hsend with
    | hub heff hcommands hconfigs =>
      refine hs.later (fun _ _ _ hu => ?_) ?_ (.of_eq hcommands hconfigs)
        (fun x hx => ⟨x, hx, .refl x⟩)
      · rw [heff] at hu
        exact hu
      · rw [heff]
        exact List.Subset.refl _
    | note eff heff =>
      have hother : ∀ type key n p, eff ≠ .encrypt type key n p := by
        rintro type key n p rfl
        cases heff
      exact hs.later (bridgeUses_of_cons hother) (List.subset_cons_self _ _) (.of_eq rfl rfl)
        (fun x hx => ⟨x, hx, .refl x⟩)
    | session hcore =>
      refine hs.later (fun _ _ _ => id) (List.Subset.refl _) hkept (fun x' hx' => ?_)
      cases hx'
      exact ⟨_, rfl, .of_core hcore⟩
    | bump =>
      refine hs.later (fun _ _ _ => id) (List.Subset.refl _) hkept (fun x' hx' => ?_)
      cases hx'
      exact ⟨_, rfl, .bump _⟩
    | encrypt type plaintext _ hvalid => exact hs.encrypt hwrap h₀ hcross type plaintext hvalid hrest
  | stateAck base hvalid _ => exact hs.encrypt hwrap h₀ hcross .ack _ hvalid hrest
  | commandFragment _ _ _ _ _ _ _ _ hvalid =>
    exact hs.encrypt hwrap h₀ hcross .command _ hvalid hrest
  | publish | hops =>
    exact hs.later (bridgeUses_of_cons (by simp)) (List.subset_cons_self _ _) (.of_eq rfl rfl)
      (fun x hx => ⟨x, hx, .refl x⟩)
  | up | down | giveUp =>
    refine hs.later (bridgeUses_of_cons (by simp)) (List.subset_cons_self _ _) (.of_eq rfl rfl)
      (fun x' hx' => ?_)
    cases hx'
    exact ⟨_, rfl, rfl, rfl, id, le_rfl, id⟩
  | create _ hnone =>
    refine ⟨⟨fun x hx => ?_, fun x hx hv => ?_⟩, fun x hx => ?_, fun x hx hv => ?_, hs.unique⟩
    · cases hx
      rfl
    · cases hx
      cases hv
    · rw [ensureSession, hnone]
      exact Nat.zero_le _
    · cases hx
      cases hv
  | drop => exact hs.later (fun _ _ _ => id) (List.Subset.refl _) hkept (fun x' hx' => by cases hx')
  | restart =>
    exact hs.later (fun _ _ _ => id) (List.Subset.refl _)
      ⟨(fun p hp => by cases hp), (fun p hp => by cases hp)⟩ (fun x' hx' => by cases hx')
  | invalidate =>
    refine hs.later (fun _ _ _ => id) (List.Subset.refl _) hkept (fun x' hx' => ?_)
    cases hx'
    exact ⟨_, rfl, rfl, rfl, (fun h => absurd h Bool.false_ne_true), le_rfl, id⟩
  | @rekey m h x y e senderMac data rssi f hjoins hhub hcore =>
    have hrekeys : Rekeys c b₀ k y.sessionKey :=
      ⟨e, senderMac, data, rssi, f, hjoins.call, hjoins.parsed, hjoins.type, hjoins.fresh,
        congrArg Core.sessionKey hcore⟩
    have htx : y.txCounter = x.txCounter := congrArg Core.txCounter hcore
    have hdrawn : y.drawn = x.drawn := congrArg Core.drawn hcore
    obtain ⟨hcommands, hconfigs, hunused⟩ := hrekey _ hrekeys
    rw [← hhub] at hcommands hconfigs hunused
    refine ⟨⟨fun x' hx' => ?_, fun x' hx' _ => ?_⟩, fun x' hx' => ?_, fun x' hx' _ => ?_, hs.unique⟩
    · cases hx'
      rw [htx, hdrawn]
      exact hs.counter x rfl
    · cases hx'
      refine ⟨fun n p hu => absurd hu (hunused n p), fun q hq => ?_, fun q hq => ?_⟩
      · rw [hcommands] at hq
        cases hq
      · rw [hconfigs] at hq
        cases hq
    · cases hx'
      rw [hdrawn]
      exact hs.grown x rfl
    · cases hx'
      exact .inr hrekeys
  | restored | abandon | rejoin | seen | seenMax | online | confirmed =>
    refine hs.later (fun _ _ _ => id) (List.Subset.refl _) hkept (fun x' hx' => ?_)
    cases hx'
    exact ⟨_, rfl, rfl, rfl, id, le_rfl, id⟩
  | queueCommand p hvalid hsent =>
    refine ⟨⟨hs.counter, fun x' hx' _ => ?_⟩, hs.grown, hs.key, hs.unique⟩
    cases hx'
    have hk := hs.keyed _ rfl hvalid
    refine ⟨hk.below, fun q hq => ?_, hk.configs⟩
    rcases List.mem_append.mp hq with hq | hq
    · exact hk.commands q hq
    · rw [List.mem_singleton.mp hq]
      exact hsent
  | queueConfig p hvalid hsent =>
    refine ⟨⟨hs.counter, fun x' hx' _ => ?_⟩, hs.grown, hs.key, hs.unique⟩
    cases hx'
    have hk := hs.keyed _ rfl hvalid
    refine ⟨hk.below, hk.commands, fun q hq => ?_⟩
    rcases List.mem_append.mp hq with hq | hq
    · exact hk.configs q hq
    · rw [List.mem_singleton.mp hq]
      exact hsent
  | retryCommand p hp hvalid n hn =>
    exact hs.later (bridgeUses_repeat ((hs.keyed _ rfl hvalid).commands p hp n hn))
      (List.subset_cons_self _ _) (.of_eq rfl rfl) (fun x hx => ⟨x, hx, .refl x⟩)
  | retryConfig p hp hvalid =>
    exact hs.later (bridgeUses_repeat ((hs.keyed _ rfl hvalid).configs p hp))
      (List.subset_cons_self _ _) (.of_eq rfl rfl) (fun x hx => ⟨x, hx, .refl x⟩)
  | queues commands configs hcommands hconfigs =>
    exact hs.later (fun _ _ _ => id) (List.Subset.refl _) ⟨hcommands, hconfigs⟩
      (fun x hx => ⟨x, hx, .refl x⟩)

/-- A call that meets the condition. -/
theorem Stream.call (hb : Stream b) (hunique : OnePlaintext leaf b.hub.effects)
    (hwrap : lastDrawn b (b.call c k) + 1 < 2 ^ 32)
    (hrekey : ∀ key, Rekeys c b k key → b.hub.commandQueue = [] ∧ b.hub.pendingConfigs = [] ∧
      ∀ n p, ¬ BridgeUses b.hub.effects key n p)
    (hcross : ∀ key, MayUse c b k key → ∀ n p, LeafUses leaf key n p → ¬ Draws b (b.call c k) n) :
    Stream (b.call c k) ∧ OnePlaintext leaf (b.call c k).hub.effects := by
  have hstart : Streaming c k b leaf b := by
    refine ⟨hb, fun x hx => ?_, fun x hx _ => .inl ?_, hunique⟩
    · rw [ensureSession, hx]
      exact le_rfl
    · rw [ensureSession, hx]
      rfl
  have hend : Streaming c k b leaf (b.call c k) :=
    Transition.steps_invariant (call_moves c b k)
      (fun _ _ ht hmove hrest => ht.move hwrap hb hrekey hcross hmove hrest) hstart
  exact ⟨hend.toStream, hend.unique⟩

end Bridge

/-! ## Both ends -/

namespace Link

variable {P : Remote.Platform η}

/-- Between two events. -/
structure Streams (s : Link η × List Effect) : Prop where
  leaf : s.1.leaf.Stream s.2
  bridge : s.1.bridge.Stream
  unique : OnePlaintext s.1.leaf.radio.effects s.1.bridge.hub.effects

/-- One event keeps the streams of both ends apart, under the condition. -/
theorem Streams.step {s : Link η × List Effect} (h : Streams s) {ev : Event η}
    (hok : Separate P s ev) : Streams (stepPast P s ev) := by
  cases ev with
  | leaf c =>
    obtain ⟨hwrap, hnew, hcross⟩ := hok
    obtain ⟨hleaf, hunique⟩ := h.leaf.call h.unique hwrap hnew hcross
    exact ⟨hleaf, h.bridge, hunique⟩
  | bridge k =>
    obtain ⟨hwrap, hrekey, hcross⟩ := hok
    obtain ⟨hbridge, hunique⟩ := h.bridge.call h.unique hwrap hrekey hcross
    exact ⟨h.leaf, hbridge, hunique⟩
  | restartLeaf fresh => exact ⟨Remote.stream_restart hok, h.bridge, h.unique⟩

theorem Init.streams {l : Link η} (h : l.Init) : Streams (l, []) := by
  obtain ⟨hsession, hdiscovery, -, hradio⟩ := h.leaf.session
  have hnone : l.leaf.radio.effects = [] := by rw [hradio]
  refine ⟨⟨⟨fun hn => ?_, fun _ hr => ?_⟩, ?_, fun key n p hu => ?_, fun hj => ?_⟩,
    ⟨fun x hx => ?_, fun x hx => ?_⟩, fun key n p q hp => ?_⟩
  · rw [hsession] at hn
    cases hn
  · rw [hdiscovery] at hr
    rcases hr with hr | hr <;> cases hr
  · rw [hradio]
    rfl
  · rw [hnone] at hu
    obtain ⟨_, hu⟩ := hu
    cases hu
  · rw [hsession] at hj
    cases hj
  · rw [h.session] at hx
    cases hx
  · rw [h.session] at hx
    cases hx
  · rw [hnone, h.effects] at hp
    rcases hp with ⟨_, hp⟩ | ⟨_, hp⟩ <;> cases hp

/-- No two plaintexts are encrypted under one key and one counter, by whichever of the two ends, in
every run whose events meet the condition.  The condition is about the two ends together: each of
them never repeats a counter under a key by itself, but both count from one, so that the first
messages of a session meet unless one end is ahead. -/
theorem keystream_unique (P : Remote.Platform η) (s : Link η × List Effect)
    (h : SeparateReachable P s) : OnePlaintext s.1.leaf.radio.effects s.1.bridge.hub.effects := by
  have hstreams : Streams s := by
    refine h.invariant (fun t ht => ?_) (fun _ _ ht hok => ht.step hok)
    obtain ⟨l, past⟩ := t
    obtain ⟨hinit, rfl⟩ := ht
    exact hinit.streams
  exact hstreams.unique

/-! ## Two joins -/

/-- The counters of the encryptions, newest first. -/
def leafCounters (effects : List Effect) : List UInt32 :=
  effects.filterMap fun
    | .encrypt _ _ n _ => some n
    | _ => none

def bridgeCounters (effects : List Bridge.Effect) : List UInt32 :=
  effects.filterMap fun
    | .encrypt _ _ n _ => some n
    | _ => none

theorem mem_leafCounters {effects : List Effect} {key : SessionKey} {n : UInt32} {p : Bytes}
    (h : LeafUses effects key n p) : n ∈ leafCounters effects := by
  obtain ⟨type, hmem⟩ := h
  exact List.mem_filterMap.mpr ⟨_, hmem, rfl⟩

theorem mem_bridgeCounters {effects : List Bridge.Effect} {key : SessionKey} {n : UInt32} {p : Bytes}
    (h : BridgeUses effects key n p) : n ∈ bridgeCounters effects := by
  obtain ⟨type, hmem⟩ := h
  exact List.mem_filterMap.mpr ⟨_, hmem, rfl⟩

/-- The condition for a leaf that has not restarted, as it is evaluated on a concrete call. -/
theorem separate_leaf {s : Link η × List Effect} {c : Remote.Call} (hpast : leafCounters s.2 = [])
    (hwrap : (s.1.leaf.call P c).radio.drawn + 1 < 2 ^ 32)
    (hcross : (bridgeCounters s.1.bridge.hub.effects).all fun n =>
      decide (¬ (s.1.leaf.radio.txCounter ≤ n ∧ n < (s.1.leaf.call P c).radio.txCounter))) :
    Separate P s (.leaf c) := by
  refine ⟨hwrap, fun f _ _ n p hu => ?_, fun key _ n p hu => ?_⟩
  · have hmem := mem_leafCounters hu
    rw [hpast] at hmem
    cases hmem
  · exact of_decide_eq_true (List.all_eq_true.mp hcross n (mem_bridgeCounters hu))

/-- The condition for the first encryption of the bridge. -/
theorem separate_bridge {s : Link η × List Effect} {k : Bridge.Call}
    (hwrap : Bridge.lastDrawn s.1.bridge (s.1.bridge.call P.crypto k) + 1 < 2 ^ 32)
    (hcommands : s.1.bridge.hub.commandQueue.length = 0)
    (hconfigs : s.1.bridge.hub.pendingConfigs.length = 0)
    (hnone : bridgeCounters s.1.bridge.hub.effects = [])
    (hleaf : leafCounters s.1.leaf.radio.effects = []) : Separate P s (.bridge k) := by
  refine ⟨hwrap, fun key _ => ⟨List.length_eq_zero_iff.mp hcommands, List.length_eq_zero_iff.mp hconfigs,
    fun n p hu => ?_⟩, fun key _ n p hu => ?_⟩
  · have hmem := mem_bridgeCounters hu
    rw [hnone] at hmem
    cases hmem
  · have hmem := mem_leafCounters hu
    rw [hleaf] at hmem
    cases hmem

/-- The leaf has sent its `JOIN` twice, so its counter is one ahead of the bridge's. -/
def retryingRun : List (Event Unit) :=
  joinEvents (sampleNonce 1) 0 ++ [400, 900].map fun now => .leaf (.loop (.quiet now (sampleNonce 1)))

def retryingLink : Link Unit := Transition.runFrom (step .sample) sample retryingRun

def answeringRetry : Event Unit := toBridge 1000 (sampleNonce 7) (retryingLink.leafSent.headD [])

def answeredRetry : Link Unit := retryingLink.step .sample answeringRetry

/-- The bridge answers and asks for the schema under counter 2; the leaf sends it under 3. -/
def aheadRun : List (Event Unit) :=
  retryingRun ++ [answeringRetry, toLeaf 1010 (sampleNonce 1) (answeredRetry.bridgeSent.getD 1 []),
    toLeaf 1020 (sampleNonce 1) (answeredRetry.bridgeSent.getD 0 [])]

def aheadLink : Link Unit × List Effect := Transition.runFrom (stepPast .sample) (sample, []) aheadRun

theorem aheadLink_reachable : SeparateReachable .sample aheadLink := by
  have hstart : SeparateReachable .sample (sample, []) := .start ⟨sample_init, rfl⟩
  have hretrying : SeparateReachable .sample
      (Transition.runFrom (stepPast .sample) (sample, []) retryingRun) := by
    refine hstart.runFrom ⟨?_, ?_, ?_, ?_, ?_, ?_, ?_, trivial⟩
    all_goals exact separate_leaf (by decide +kernel) (by decide +kernel) (by decide +kernel)
  rw [aheadLink, aheadRun, Transition.runFrom_append]
  refine hretrying.runFrom ⟨?_, ?_, ?_, trivial⟩
  · exact separate_bridge (by decide +kernel) (by decide +kernel) (by decide +kernel)
      (by decide +kernel) (by decide +kernel)
  · exact separate_leaf (by decide +kernel) (by decide +kernel) (by decide +kernel)
  · exact separate_leaf (by decide +kernel) (by decide +kernel) (by decide +kernel)

/-- Both ends have encrypted under one key. -/
theorem keystream_unique_aheadLink :
    (leafCounters aheadLink.1.leaf.radio.effects = [3] ∧
      bridgeCounters aheadLink.1.bridge.hub.effects = [2]) ∧
      OnePlaintext aheadLink.1.leaf.radio.effects aheadLink.1.bridge.hub.effects :=
  ⟨by decide +kernel, keystream_unique .sample aheadLink aheadLink_reachable⟩

/-- With one `JOIN` the counters are equal, and the schema request meets its answer. -/
def levelRun : List (Event Unit) :=
  joinedRun ++ [toLeaf 90 (sampleNonce 1) (joinedLink.1.bridgeSent.getD 0 [])]

def levelLink : Link Unit := Transition.runFrom (step .sample) sample levelRun

/-- Two encryptions of different plaintexts under one key and counter. -/
def clashes : Effect → Bridge.Effect → Bool
  | .encrypt _ key n p, .encrypt _ key' n' q =>
    decide (key = key') && decide (n = n') && decide (p ≠ q)
  | _, _ => false

/-- One pair of entries with the same key and counter and different plaintexts is enough. -/
theorem not_onePlaintext_of_clash {leaf : List Effect} {bridge : List Bridge.Effect}
    (h : leaf.any (fun eff => bridge.any (clashes eff))) : ¬ OnePlaintext leaf bridge := by
  intro hone
  obtain ⟨eff, hleaf, hany⟩ := List.any_eq_true.mp h
  obtain ⟨eff', hbridge, hclash⟩ := List.any_eq_true.mp hany
  unfold clashes at hclash
  split at hclash
  · next type key n p type' key' n' q =>
    simp only [Bool.and_eq_true, decide_eq_true_eq] at hclash
    obtain ⟨⟨rfl, rfl⟩, hne⟩ := hclash
    exact hne (hone key n p q (.inl ⟨type, hleaf⟩) (.inr ⟨type', hbridge⟩))
  · cases hclash

/-- Without the condition the first request of the bridge and the first answer of the leaf are
encrypted with one keystream. -/
theorem keystream_reused_levelLink :
    Transition.Reachable Init (fun _ ev => ev.Possible) (step .sample) levelLink ∧
      ¬ OnePlaintext levelLink.leaf.radio.effects levelLink.bridge.hub.effects := by
  refine ⟨?_, not_onePlaintext_of_clash (by decide +kernel)⟩
  have hstart : Transition.Reachable Init (fun _ ev => ev.Possible) (step .sample) sample :=
    .start sample_init
  exact hstart.runFrom (by simp [Transition.Admits, levelRun, joinedRun, joinEvents,
    Remote.discoverCalls, Event.Possible, answeringEvent, toBridge, toLeaf])

end Link

end EspTree
