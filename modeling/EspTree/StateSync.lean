import EspTree.Lib.System
import EspTree.Remote.Moves

/-!
# States reach the bridge

A leaf marks an entity dirty when its value changes and clean when the bridge has acknowledged a
`STATE` message or sent a `COMMAND`.  A clean entity should hold the value that the bridge has.

`lastBridgeValue` is that value, read off the effects of the run.  The law fails when a value
changes between the transmission of a `STATE` and its ACK, because the ACK clears the dirty flag
whatever the value is by then; `Settled` is the condition that excludes it.

`Synced` is the invariant: the value that the bridge has of an entity is the one that the leaf has,
or the entity is dirty, or an acknowledgement is awaited for a message with the present value.  Each
move of the leaf keeps it, and the case of the acknowledgement is where `Settled` is needed, so the
condition is used in one place.

What the bridge has is read off the effects of the leaf, from the `STATE` messages that were
acknowledged and the commands that were carried out, so the theorem is about the leaf alone.
-/

namespace EspTree

open Wire

variable {η : Type}

namespace Remote

/-! ## What the bridge knows -/

/-- The newest `STATE` message with a given base counter: its entity and value. -/
def messageOf (base : UInt32) : List Effect → Option (UInt8 × Bytes)
  | [] => none
  | .stateMessage b entity value :: rest =>
    if b = base then some (entity, value) else messageOf base rest
  | _ :: rest => messageOf base rest

/-- The last value of an entity that the bridge acknowledged or commanded. -/
def lastBridgeValue (entity : UInt8) : List Effect → Option Bytes
  | [] => none
  | .command _ _ e _ value :: rest => if e = entity then some value else lastBridgeValue entity rest
  | .stateAcked base :: rest =>
    match messageOf base rest with
    | some (e, value) => if e = entity then some value else lastBridgeValue entity rest
    | none => lastBridgeValue entity rest
  | _ :: rest => lastBridgeValue entity rest

/-- A `STATE` message of the entity is under way. -/
def Awaits (s : Remote η) (entity : UInt8) : Prop :=
  s.entities.waitingForStateAck ∧ s.entities.pendingStateFieldIndex = entity

/-- No update is lost: a clean entity without a message under way has the bridge's value. -/
def NoLostUpdate (s : Remote η) : Prop :=
  ∀ (entity : UInt8) (r : EntityRecord), s.entities.records[entity.toNat]? = some r →
    r.dirty = false → ¬ s.Awaits entity →
    lastBridgeValue entity s.radio.effects = some r.currentValue

/-! ## The condition -/

/-- The condition on a call: while a `STATE` message of an entity is under way, its value does not
change and no command for it comes in; and a text entity reports its text. -/
def Settled (P : Platform η) (s : Remote η) : Call → Prop
  | .stateChange index value => ∀ r, s.entities.records[index.toNat]? = some r →
      (s.Awaits index → value = r.currentValue) ∧ (r.isText → value = r.currentText)
  | .textChange index value => ∀ r, s.entities.records[index.toNat]? = some r →
      s.Awaits index → value = r.currentValue
  | .frame _ _ data _ => ∀ f plaintext command, parseFrame data = some f →
      f.type? = some .command → s.openFrame P f = some plaintext →
      EntityPayload.parse plaintext = some command → ¬ s.Awaits command.entityIndex
  | .loop _ => True

/-! ## The invariant -/

/-- The invariant of the state synchronisation. -/
structure Synced (s : Remote η) : Prop where
  index : ∀ (i : Nat) (r : EntityRecord), s.entities.records[i]? = some r →
    r.schema.entityIndex.toNat = i
  text : ∀ (i : Nat) (r : EntityRecord), s.entities.records[i]? = some r → r.isText →
    r.currentText = r.currentValue
  clean : s.NoLostUpdate
  waiting : s.entities.waitingForStateAck → ∃ r,
    s.entities.records[s.entities.pendingStateFieldIndex.toNat]? = some r ∧ r.dirty ∧
    s.entities.pendingStateValue = r.currentValue ∧
    messageOf s.entities.pendingStateMessageTxBase s.radio.effects =
      some (s.entities.pendingStateFieldIndex, r.currentValue)

section

variable {s t : Remote η}

/-- An entity whose message is under way is dirty, so a clean one has the bridge's value. -/
theorem Synced.last (h : s.Synced) {entity : UInt8} {r : EntityRecord}
    (hr : s.entities.records[entity.toNat]? = some r) (hclean : r.dirty = false) :
    lastBridgeValue entity s.radio.effects = some r.currentValue := by
  by_cases hawaits : s.Awaits entity
  · obtain ⟨r', hr', hdirty, -⟩ := h.waiting hawaits.1
    rw [hawaits.2, hr] at hr'
    obtain rfl := Option.some.inj hr'
    rw [hclean] at hdirty
    cases hdirty
  · exact h.clean entity r hr hclean hawaits

/-- Changes that the bridge's value does not depend on, and forgetting the pending message. -/
theorem Synced.forget (h : s.Synced) (hrecords : t.entities.records = s.entities.records)
    (hmessage : ∀ base, messageOf base t.radio.effects = messageOf base s.radio.effects)
    (hlast : ∀ e, lastBridgeValue e t.radio.effects = lastBridgeValue e s.radio.effects)
    (hwait : t.entities.waitingForStateAck → s.entities.waitingForStateAck ∧
      t.entities.pendingStateMessageTxBase = s.entities.pendingStateMessageTxBase ∧
      t.entities.pendingStateFieldIndex = s.entities.pendingStateFieldIndex ∧
      t.entities.pendingStateValue = s.entities.pendingStateValue) : t.Synced where
  index i r hr := h.index i r (hrecords ▸ hr)
  text i r hr := h.text i r (hrecords ▸ hr)
  clean entity r hr hclean _ := by
    rw [hlast]
    exact h.last (hrecords ▸ hr) hclean
  waiting ht := by
    obtain ⟨hs, hbase, hindex, hvalue⟩ := hwait ht
    rw [hmessage, hbase, hindex, hvalue, hrecords]
    exact h.waiting hs

/-- Changes outside the entities and the three kinds of effects. -/
theorem Synced.congr (h : s.Synced) (hentities : t.entities = s.entities)
    (hmessage : ∀ base, messageOf base t.radio.effects = messageOf base s.radio.effects)
    (hlast : ∀ e, lastBridgeValue e t.radio.effects = lastBridgeValue e s.radio.effects) :
    t.Synced :=
  h.forget (by rw [hentities]) hmessage hlast
    (fun ht => by rw [hentities] at ht ⊢; exact ⟨ht, rfl, rfl, rfl⟩)

/-- Marking records dirty. -/
theorem Synced.redirty (h : s.Synced) (g : Nat → EntityRecord → EntityRecord)
    (hg : ∀ i r, g i r = r ∨ g i r = { r with dirty := true })
    (hrecords : ∀ i, t.entities.records[i]? = s.entities.records[i]?.map (g i))
    (heff : t.radio.effects = s.radio.effects)
    (hwait : t.entities.waitingForStateAck = s.entities.waitingForStateAck)
    (hbase : t.entities.pendingStateMessageTxBase = s.entities.pendingStateMessageTxBase)
    (hindex : t.entities.pendingStateFieldIndex = s.entities.pendingStateFieldIndex)
    (hvalue : t.entities.pendingStateValue = s.entities.pendingStateValue) : t.Synced where
  index i r hr := by
    rw [hrecords] at hr
    obtain ⟨r₀, hr₀, rfl⟩ := Option.map_eq_some_iff.mp hr
    rcases hg i r₀ with hgr | hgr <;> rw [hgr] <;> exact h.index i r₀ hr₀
  text i r hr := by
    rw [hrecords] at hr
    obtain ⟨r₀, hr₀, rfl⟩ := Option.map_eq_some_iff.mp hr
    rcases hg i r₀ with hgr | hgr <;> rw [hgr] <;> exact h.text i r₀ hr₀
  clean entity r hr hclean _ := by
    rw [hrecords] at hr
    obtain ⟨r₀, hr₀, rfl⟩ := Option.map_eq_some_iff.mp hr
    rcases hg entity.toNat r₀ with hgr | hgr
    · rw [hgr] at hclean ⊢
      rw [heff]
      exact h.last hr₀ hclean
    · rw [hgr] at hclean
      cases hclean
  waiting ht := by
    rw [hwait] at ht
    obtain ⟨r₀, hr₀, hdirty, hv, hmessage⟩ := h.waiting ht
    rw [hbase, hindex, hvalue, heff, hrecords, hr₀]
    refine ⟨_, rfl, ?_⟩
    rcases hg s.entities.pendingStateFieldIndex.toNat r₀ with hgr | hgr <;> rw [hgr]
    · exact ⟨hdirty, hv, hmessage⟩
    · exact ⟨rfl, hv, hmessage⟩

/-- Setting a record changes this one only. -/
theorem getElem?_setRecord (s : Remote η) (index : UInt8) (g : EntityRecord → EntityRecord) (i : Nat) :
    (s.setRecord index g).entities.records[i]? =
      s.entities.records[i]?.map (fun r => if index.toNat = i then g r else r) := by
  simp only [setRecord, List.getElem?_modify]
  split <;> simp

/-- A `STATE` message that carries the value of its entity. -/
theorem Synced.sent (h : s.Synced) (e : Env) {index : UInt8} {record : EntityRecord} {value : Bytes}
    (base : UInt32) (reset : Bool) (hrecord : s.entities.records[index.toNat]? = some record)
    (hdirty : record.dirty) (hvalue : value = record.currentValue)
    (ht : t = s.stateSent e index record value base reset ∨
      t = (s.stateSent e index record value base reset).startWaiting) : t.Synced := by
  have hpayload : record.payload value = record.currentValue := by
    unfold EntityRecord.payload
    split
    next htext => exact h.text _ _ hrecord htext
    · exact hvalue
  have hparts : t.entities.records = s.entities.records ∧
      t.entities.pendingStateMessageTxBase = base ∧ t.entities.pendingStateFieldIndex = index ∧
      t.entities.pendingStateValue = value ∧
      t.radio.effects = .stateMessage base index (record.payload value) :: s.radio.effects := by
    rcases ht with rfl | rfl <;> exact ⟨rfl, rfl, rfl, rfl, rfl⟩
  obtain ⟨hrecords, hb, hi, hv, heff⟩ := hparts
  refine ⟨fun i r hr => h.index i r (hrecords ▸ hr), fun i r hr => h.text i r (hrecords ▸ hr), ?_, ?_⟩
  · intro entity r hr hclean _
    rw [heff]
    exact h.last (hrecords ▸ hr) hclean
  · intro _
    rw [hrecords, hb, hi, hv, heff]
    refine ⟨record, hrecord, hdirty, hvalue, ?_⟩
    rw [messageOf, if_pos rfl, hpayload]

/-- The ACK of the message under way. -/
theorem Synced.acked (h : s.Synced) (e : Env) (hwait : s.entities.waitingForStateAck) :
    (s.stateAcked e).Synced := by
  obtain ⟨record, hrecord, -, -, hmessage⟩ := h.waiting hwait
  have hget (i : Nat) : (s.stateAcked e).entities.records[i]? = s.entities.records[i]?.map
      (fun r => if s.entities.pendingStateFieldIndex.toNat = i then { r with dirty := false } else r) :=
    getElem?_setRecord _ _ _ i
  refine ⟨fun i r hr => ?_, fun i r hr => ?_, fun entity r hr hclean _ => ?_, fun ht => by cases ht⟩
  · rw [hget] at hr
    obtain ⟨r₀, hr₀, rfl⟩ := Option.map_eq_some_iff.mp hr
    split <;> exact h.index i r₀ hr₀
  · rw [hget] at hr
    obtain ⟨r₀, hr₀, rfl⟩ := Option.map_eq_some_iff.mp hr
    split <;> exact h.text i r₀ hr₀
  · rw [hget] at hr
    obtain ⟨r₀, hr₀, rfl⟩ := Option.map_eq_some_iff.mp hr
    change lastBridgeValue entity (.stateAcked s.entities.pendingStateMessageTxBase ::
      s.radio.effects) = _
    rw [lastBridgeValue, hmessage]
    dsimp only
    by_cases hentity : s.entities.pendingStateFieldIndex = entity
    · -- the entity that was waited for: the message carried its value
      subst hentity
      rw [hrecord] at hr₀
      obtain rfl := Option.some.inj hr₀
      rw [if_pos rfl, if_pos rfl]
    · have hne : s.entities.pendingStateFieldIndex.toNat ≠ entity.toNat :=
        fun h => hentity (UInt8.toNat_inj.mp h)
      rw [if_neg hentity, if_neg hne]
      rw [if_neg hne] at hclean
      exact h.last hr₀ hclean

/-- A completed command of an entity that is not waited for. -/
theorem Synced.commanded (h : s.Synced) (command : EntityPayload) (base : UInt32)
    (a : FragmentAssembly) (hnot : ¬ s.Awaits command.entityIndex) :
    (s.completeCommand command base a).Synced := by
  set value := a.assemble s.session.limits.maxEntityFragment with hvalue
  have hget (i : Nat) : (s.completeCommand command base a).entities.records[i]? =
      s.entities.records[i]?.map (fun r =>
        if command.entityIndex.toNat = i then r.commanded value base else r) :=
    getElem?_setRecord _ _ _ i
  refine ⟨fun i r hr => ?_, fun i r hr htext => ?_, fun entity r hr hclean _ => ?_, fun ht => ?_⟩
  · rw [hget] at hr
    obtain ⟨r₀, hr₀, rfl⟩ := Option.map_eq_some_iff.mp hr
    split <;> exact h.index i r₀ hr₀
  · rw [hget] at hr
    obtain ⟨r₀, hr₀, rfl⟩ := Option.map_eq_some_iff.mp hr
    split at htext
    next hi =>
      rw [if_pos hi, EntityRecord.commanded]
      exact if_pos htext
    next hi =>
      rw [if_neg hi]
      exact h.text i r₀ hr₀ htext
  · rw [hget] at hr
    obtain ⟨r₀, hr₀, rfl⟩ := Option.map_eq_some_iff.mp hr
    change lastBridgeValue entity (.command _ base command.entityIndex command.flags value ::
      s.radio.effects) = _
    rw [lastBridgeValue]
    by_cases hentity : command.entityIndex = entity
    · subst hentity
      rw [if_pos rfl, if_pos rfl]
      rfl
    · have hne : command.entityIndex.toNat ≠ entity.toNat :=
        fun h => hentity (UInt8.toNat_inj.mp h)
      rw [if_neg hentity, if_neg hne]
      rw [if_neg hne] at hclean
      exact h.last hr₀ hclean
  · obtain ⟨record, hrecord, hdirty, hv, hmessage⟩ := h.waiting ht
    have hne : command.entityIndex.toNat ≠ s.entities.pendingStateFieldIndex.toNat :=
      fun h => hnot ⟨ht, (UInt8.toNat_inj.mp h).symm⟩
    refine ⟨record, ?_, hdirty, hv, hmessage⟩
    rw [hget]
    refine (congrArg _ hrecord).trans ?_
    exact congrArg some (if_neg hne)

/-- A new value, unless the old one is under way. -/
theorem Synced.changed (h : s.Synced) (index : UInt8) (g : EntityRecord → EntityRecord)
    (hg : ∀ r, (g r).schema = r.schema ∧ (g r).dirty)
    (hvalue : ∀ r, s.entities.records[index.toNat]? = some r →
      (s.Awaits index → (g r).currentValue = r.currentValue) ∧
      (r.isText → (g r).currentText = (g r).currentValue)) : (s.setRecord index g).Synced := by
  refine ⟨fun i r hr => ?_, fun i r hr htext => ?_, fun entity r hr hclean _ => ?_, fun ht => ?_⟩
  · rw [getElem?_setRecord] at hr
    obtain ⟨r₀, hr₀, rfl⟩ := Option.map_eq_some_iff.mp hr
    split
    · rw [(hg r₀).1]
      exact h.index i r₀ hr₀
    · exact h.index i r₀ hr₀
  · rw [getElem?_setRecord] at hr
    obtain ⟨r₀, hr₀, rfl⟩ := Option.map_eq_some_iff.mp hr
    split at htext
    next hi =>
      subst hi
      rw [if_pos rfl]
      refine (hvalue r₀ hr₀).2 ?_
      simpa [EntityRecord.isText, (hg r₀).1] using htext
    next hi =>
      rw [if_neg hi]
      exact h.text i r₀ hr₀ htext
  · rw [getElem?_setRecord] at hr
    obtain ⟨r₀, hr₀, rfl⟩ := Option.map_eq_some_iff.mp hr
    split at hclean
    · rw [(hg r₀).2] at hclean
      cases hclean
    next hne =>
      rw [if_neg hne]
      exact h.last hr₀ hclean
  · obtain ⟨record, hrecord, hdirty, hv, hmessage⟩ := h.waiting ht
    by_cases hi : index = s.entities.pendingStateFieldIndex
    · have hsame := (hvalue record (hi ▸ hrecord)).1 ⟨ht, hi.symm⟩
      refine ⟨g record, ?_, (hg record).2, hv.trans hsame.symm, ?_⟩
      · rw [getElem?_setRecord]
        refine (congrArg _ hrecord).trans ?_
        exact congrArg some (if_pos (congrArg UInt8.toNat hi))
      · rw [hsame]
        exact hmessage
    · refine ⟨record, ?_, hdirty, hv, hmessage⟩
      have hne : index.toNat ≠ s.entities.pendingStateFieldIndex.toNat :=
        fun h => hi (UInt8.toNat_inj.mp h)
      rw [getElem?_setRecord]
      refine (congrArg _ hrecord).trans ?_
      exact congrArg some (if_neg hne)

/-! ## Every move keeps it -/

variable {P : Platform η} {c : Call} {s₀ : Remote η}

/-- Every move of a leaf keeps it in step with the bridge.  The case that needs the condition is the
ACK, which clears the dirty mark of the value that the entity has by then. -/
theorem Synced.move (h : s.Synced) (hok : s₀.Settled P c) (hmove : Move P c s₀ s t) : t.Synced := by
  cases hmove with
  | radio r _ _ heff => exact h.congr rfl (fun _ => by rw [heff]) (fun _ => by rw [heff])
  | send | encrypt | bump | reboot | timers | files | reported | discovery | route | lowerHops | take | resume
  | complete | draw | notNormal | invalidate | accept | seen | seenMax | expire | store
  | remember | configured => exact h.congr rfl (fun _ => rfl) (fun _ => rfl)
  | clear _ => exact h.forget rfl (fun _ => rfl) (fun _ => rfl) (fun ht => by cases ht)
  | entities x hrecords hwait => exact h.forget hrecords (fun _ => rfl) (fun _ => rfl) hwait
  | dirtyAll =>
    refine h.redirty (fun _ r => { r with dirty := true }) (fun _ _ => .inr rfl) (fun i => ?_)
      rfl rfl rfl rfl rfl
    simp [markAllEntitiesDirty]
  | dirty index =>
    refine h.redirty (fun i r => if index.toNat = i then { r with dirty := true } else r)
      (fun i r => ?_) (fun i => getElem?_setRecord s index _ i) rfl rfl rfl rfl rfl
    split
    · exact .inr rfl
    · exact .inl rfl
  | push e index record base value _ hwait hrecord hvalue =>
    obtain ⟨d, hd, hdirty, hindex, rfl⟩ := hvalue
    -- the dirty record is the one with the index
    obtain ⟨i, hi⟩ := List.mem_iff_getElem?.mp hd
    have hrecords : s.entities.records[index.toNat]? = some d := by
      rw [← hindex, h.index i d hi]
      exact hi
    obtain rfl := Option.some.inj (hrecords.symm.trans hrecord)
    exact h.sent e base true hrecords hdirty rfl (.inr rfl)
  | resend e record base hwait hrecord =>
    obtain ⟨r, hr, hdirty, hvalue, -⟩ := h.waiting hwait
    obtain rfl := Option.some.inj (hr.symm.trans hrecord)
    exact h.sent e base false hr hdirty hvalue (.inl rfl)
  | stateAcked e hwait => exact h.acked e hwait
  | command f command plaintext record a hf htype hopen hparse _ hsame _ _ =>
    refine h.commanded command _ a (fun hawaits => ?_)
    cases c with
    | frame e senderMac data rssi =>
      refine hok f plaintext command hf htype hopen hparse ?_
      unfold Awaits at hawaits ⊢
      rwa [← hsame]
    | _ => cases hf
  | change index value hc hs =>
    subst hc hs
    exact h.changed index _ (fun _ => ⟨rfl, rfl⟩)
      (fun r hr => ⟨fun ha => (hok r hr).1 ha, fun htext => ((hok r hr).2 htext).symm⟩)
  | changeText index value hc hs =>
    subst hc hs
    exact h.changed index _ (fun _ => ⟨rfl, rfl⟩)
      (fun r hr => ⟨fun ha => hok r hr ha, fun _ => rfl⟩)

end

/-! ## Every run keeps it -/

/-- Registering an entity leaves those before it as they are. -/
theorem getElem?_registerEntity {s : Remote η} {type : UInt8} {name unit options id : Bytes} {i : Nat}
    {r : EntityRecord}
    (hr : (s.registerEntity type name unit options id).entities.records[i]? = some r) :
    s.entities.records[i]? = some r ∨ (i = s.entities.records.length ∧
      r = { schema := ⟨UInt8.ofNat i, type, name, unit, options, id⟩ }) := by
  simp only [registerEntity, List.getElem?_append] at hr
  split at hr
  · exact .inl hr
  · next hle =>
    obtain ⟨hi, hr⟩ := List.getElem?_eq_some_iff.mp hr
    have hlen : i = s.entities.records.length := by
      simp only [List.length_singleton] at hi
      omega
    simp only [List.getElem_singleton] at hr
    exact .inr ⟨hlen, by rw [hlen, hr]⟩

/-- Registration appends a dirty entity whose index is its position. -/
theorem Registered.synced {s : Remote η} (h : Registered s) :
    s.Synced ∧ s.entities.waitingForStateAck = false := by
  induction h with
  | fresh config files settings =>
    refine ⟨⟨fun i r hr => ?_, fun i r hr => ?_, fun entity r hr => ?_, fun ht => ?_⟩, rfl⟩
    · cases hr
    · cases hr
    · cases hr
    · cases ht
  | @register s _ hroom type name unit options id ih =>
    obtain ⟨ih, hwait⟩ := ih
    refine ⟨⟨fun i r hr => ?_, fun i r hr htext => ?_, fun entity r hr hclean _ => ?_, fun ht => ?_⟩,
      hwait⟩
    · obtain hr | ⟨rfl, rfl⟩ := getElem?_registerEntity hr
      · exact ih.index i r hr
      · exact UInt8.toNat_ofNat_of_lt' hroom
    · obtain hr | ⟨rfl, rfl⟩ := getElem?_registerEntity hr
      · exact ih.text i r hr htext
      · rfl
    · obtain hr | ⟨-, rfl⟩ := getElem?_registerEntity hr
      · exact ih.last hr hclean
      · cases hclean
    · exact absurd (hwait.symm.trans ht) Bool.false_ne_true

/-- The runs of a leaf whose calls all meet the condition. -/
abbrev SyncReachable (P : Platform η) : Remote η → Prop :=
  Transition.Reachable Registered (Settled P) (call P)

/-- The invariant holds in every state of a run. -/
theorem SyncReachable.synced {P : Platform η} {s : Remote η} (h : SyncReachable P s) : s.Synced :=
  Transition.Reachable.invariant (I := Synced) (fun _ hr => hr.synced.1)
    (fun _ _ hs hok => call_invariant (fun _ _ ht hmove => ht.move hok hmove) hs) h

/-- In every run in which no value changes, and no command comes in, between the transmission of a
`STATE` message and its ACK, no update is lost: an entity that is clean has no other value than the
bridge has acknowledged.  The invariant is `Synced`, which also says what the message under way was
made of; the ACK clears the dirty mark without another look at the value. -/
theorem updates_not_lost (P : Platform η) (s : Remote η) (h : SyncReachable P s) : s.NoLostUpdate :=
  h.synced.clean

/-! ## A change while a message is under way -/

/-- Addresses of the leaf and the bridge in the runs below. -/
def sensorMac : Mac := Octets.fit 6 [1]
def hubMac : Mac := Octets.fit 6 [9]

/-- A leaf with one sensor. -/
def sensorLeaf : Remote Unit :=
  registerEntity { config := { leafMac := sensorMac }, files := { handlers := fun _ => none } }
    0 [] [] [] []

/-- The key that the leaf and the bridge derive from two zero nonces. -/
def zeroKey : SessionKey := Crypto.sample.deriveSessionKey (Octets.zero 16) (Octets.zero 16)

/-- The sensor reads 1, the leaf joins and sends the reading. -/
def pushCalls : List Call :=
  .stateChange 0 [1] :: discoverCalls sensorMac hubMac nodeRoleBridge 0 (Octets.zero 16) 0 ++
    [.frame (.quiet 70 (Octets.zero 16)) hubMac
      (joinAckTo sensorMac joinStatusComplete (Octets.zero 16) 1) (-50),
    .loop (.quiet 80 (Octets.zero 16))]

/-- The bridge acknowledges the message with counter `base`. -/
def stateAckCall (base : UInt32) : Call :=
  .frame (.quiet 90 (Octets.zero 16)) hubMac
    (sealedTo sensorMac zeroKey .ack 2 (Ack.bytes ⟨ackState, 0, base⟩)) (-50)

/-- A frame of another type than `COMMAND` meets the condition. -/
theorem settled_frame {P : Platform η} {s : Remote η} {e : Env} {mac : Mac} {data : Bytes} {rssi : Int}
    (h : (parseFrame data).all (fun f => f.type? != some .command)) :
    s.Settled P (.frame e mac data rssi) := by
  intro f plaintext command hparse htype
  rw [hparse, Option.all_some, htype] at h
  cases h

/-- The reading was acknowledged. -/
def pushedLeaf : Remote Unit :=
  Transition.runFrom (call .sample) sensorLeaf (pushCalls ++ [stateAckCall 3])

theorem pushedLeaf_reachable : SyncReachable .sample pushedLeaf := by
  have hstart : SyncReachable .sample sensorLeaf :=
    .start (.register (.fresh _ _ {}) (by decide) 0 [] [] [] [])
  refine hstart.runFrom ⟨fun r hr => ⟨fun h => ?_, fun htext => ?_⟩, trivial, trivial, ?_, trivial,
    trivial, ?_, trivial, ?_, trivial⟩
  · exact absurd h.1 (by decide)
  · cases hr
    cases htext
  · exact settled_frame (by decide +kernel)
  · exact settled_frame (by decide +kernel)
  · exact settled_frame (by decide +kernel)

/-- A leaf that has joined, has pushed the state of its sensor and has got the ACK. -/
theorem updates_not_lost_pushedLeaf :
    pushedLeaf.entities.records.map (fun r => (r.currentValue, r.dirty)) = [([1], false)] ∧
      pushedLeaf.NoLostUpdate :=
  ⟨by decide +kernel, updates_not_lost .sample pushedLeaf pushedLeaf_reachable⟩

/-- The same run with a new reading between the transmission and its ACK. -/
def changedLeaf : Remote Unit :=
  Transition.runFrom (call .sample) sensorLeaf (pushCalls ++ [.stateChange 0 [2], stateAckCall 3])

/-- The new reading is clean, no message is under way, and the bridge has the old reading. -/
theorem update_lost_changedLeaf :
    Transition.Reachable Registered (fun _ _ => True) (call .sample) changedLeaf ∧
      ¬ changedLeaf.NoLostUpdate := by
  constructor
  · have hstart : Transition.Reachable Registered (fun _ _ => True) (call .sample) sensorLeaf :=
      .start (.register (.fresh _ _ {}) (by decide) 0 [] [] [] [])
    exact hstart.runFrom (by simp [Transition.Admits, pushCalls, discoverCalls])
  · intro h
    have hvalue : changedLeaf.entities.records.map (fun r => (r.currentValue, r.dirty)) =
        [([2], false)] := by decide +kernel
    obtain ⟨r, hr, hr₂⟩ := List.map_eq_singleton_iff.mp hvalue
    obtain ⟨hcurrent, hclean⟩ := Prod.mk.inj hr₂
    have hlast := h 0 r (by rw [hr]; rfl) hclean (fun hawaits => absurd hawaits.1 (by decide +kernel))
    rw [hcurrent] at hlast
    exact absurd hlast (by decide +kernel)

end Remote

end EspTree
