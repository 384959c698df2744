import EspTree.Link

/-!
# The two ends agree on the session key

A leaf derives its key from the nonce of the `JOIN_ACK` that it accepts and its own nonce, the
bridge from the nonce that it draws and the one in the `JOIN`.  When both hold the same bridge
nonce they should hold the same key.

A `JOIN_ACK` does not say which `JOIN` it answers, so a leaf that has drawn a new nonce in between
derives another key from a late one.  `Answered` is the condition that excludes it: what a leaf
accepts answers a `JOIN` with its present nonce, and the bridge draws each nonce once.  The history
`answers` lists the pairs of nonces that the bridge has held.
-/

namespace EspTree

open Wire

variable {η : Type}

namespace Link

/-! ## The history -/

/-- The pairs `(bridge nonce, remote nonce)` that the bridge has held. -/
abbrev Answers := List (Nonce × Nonce)

/-- The pair that the bridge holds after a step, if it holds a key or has drawn a nonce. -/
def answer (b b' : Bridge) : Answers :=
  match b'.session? with
  | none => []
  | some x =>
    if x.sessionKeyValid ∨ x.bridgeNonce ≠ b.ensureSession.bridgeNonce then
      [(x.bridgeNonce, x.remoteNonce)]
    else []

/-- A pair of nonces is remembered when the bridge has set a key with it, or has drawn its nonce
anew. -/
theorem mem_answer {b b' : Bridge} {n r : Nonce} : (n, r) ∈ answer b b' ↔ ∃ x,
    b'.session? = some x ∧ (x.sessionKeyValid ∨ x.bridgeNonce ≠ b.ensureSession.bridgeNonce) ∧
      n = x.bridgeNonce ∧ r = x.remoteNonce := by
  unfold answer
  cases b'.session? with
  | none => simp
  | some x =>
    dsimp only
    split
    next hrecorded => simp [hrecorded]
    next hrecorded => simp [hrecorded]

/-- The link with the history of its answers. -/
def stepAnswers (P : Remote.Platform η) : Link η × Answers → Event η → Link η × Answers :=
  Transition.recording (step P) (fun l _ l' answers => answer l.bridge l'.bridge ++ answers)

/-- The condition on an event. -/
def Answered (s : Link η × Answers) : Event η → Prop
  | .leaf c => ∀ f, c.frame? = some f → s.1.leaf.Accepts f →
      ((JoinAck.parse f.payload).bridgeNonce, s.1.leaf.session.remoteNonce) ∈ s.2
  | .bridge (.frame e _ _ _) => ∀ r, (e.nonce, r) ∉ s.2
  | ev => ev.Possible

/-- A run starts without answers. -/
def InitAnswers (s : Link η × Answers) : Prop := s.1.Init ∧ s.2 = []

/-- The runs whose events all meet the condition. -/
abbrev AnsweredReachable (P : Remote.Platform η) : Link η × Answers → Prop :=
  Transition.Reachable InitAnswers Answered (stepAnswers P)

/-! ## The leaf -/

/-- A joined leaf holds the key of a pair that the bridge has held. -/
structure LeafKeyed (P : Remote.Platform η) (answers : Answers) (s : Remote η) : Prop where
  flags : s.Flags
  keyed : s.session.joined →
    (s.session.bridgeNonce, s.session.remoteNonce) ∈ answers ∧
      s.session.sessionKey = P.crypto.deriveSessionKey s.session.bridgeNonce s.session.remoteNonce

section

variable {P : Remote.Platform η} {answers : Answers} {s t : Remote η}

/-- A move of the leaf that takes a key takes it from an answer to its present nonce. -/
theorem LeafKeyed.move {c : Remote.Call} {s₀ : Remote η}
    (hok : ∀ f, c.frame? = some f → s₀.Accepts f →
      ((JoinAck.parse f.payload).bridgeNonce, s₀.session.remoteNonce) ∈ answers)
    (h : LeafKeyed P answers s) (hmove : Remote.Move P c s₀ s t) : LeafKeyed P answers t := by
  refine ⟨h.flags.move hmove, fun hjoined => ?_⟩
  cases hmove with
  | resume hdisc hresume => exact h.keyed (h.flags.resuming hdisc (.inl hresume))
  | accept f hf haccepts hsame =>
    refine ⟨?_, rfl⟩
    have hanswer := hok f hf haccepts
    rw [← hsame] at hanswer
    exact hanswer
  | draw nonce hfree => exact absurd (hfree.symm.trans hjoined) Bool.false_ne_true
  | clear preserveRoute => exact absurd hjoined Bool.false_ne_true
  | _ => exact h.keyed hjoined

theorem LeafKeyed.registered (h : s.Registered) : LeafKeyed P answers s := by
  obtain ⟨hsession, hdiscovery, -, -⟩ := h.session
  refine ⟨⟨fun hn => ?_, fun _ hresume => ?_⟩, fun hj => ?_⟩
  · rw [hsession] at hn
    cases hn
  · rw [hdiscovery] at hresume
    rcases hresume with h | h <;> cases h
  · rw [hsession] at hj
    cases hj

/-- More answers do no harm. -/
theorem LeafKeyed.mono {answers' : Answers} (h : LeafKeyed P answers s)
    (hsub : ∀ p ∈ answers, p ∈ answers') : LeafKeyed P answers' s :=
  ⟨h.flags, fun hj => ⟨hsub _ (h.keyed hj).1, (h.keyed hj).2⟩⟩

end

/-! ## The whole link -/

/-- The invariant of the handshake. -/
structure Keyed (P : Remote.Platform η) (s : Link η × Answers) : Prop where
  leaf : LeafKeyed P s.2 s.1.leaf
  bridge : ∀ x, s.1.bridge.session? = some x → x.sessionKeyValid →
    (x.bridgeNonce, x.remoteNonce) ∈ s.2 ∧
      x.sessionKey = P.crypto.deriveSessionKey x.bridgeNonce x.remoteNonce
  unique : ∀ b r r', (b, r) ∈ s.2 → (b, r') ∈ s.2 → r = r'

section

variable {P : Remote.Platform η} {s : Link η × Answers}

/-- A step that leaves the bridge alone records nothing new. -/
theorem Keyed.same_bridge (h : Keyed P s) {l : Link η} (hbridge : l.bridge = s.1.bridge)
    (hleaf : LeafKeyed P s.2 l.leaf) : Keyed P (l, answer s.1.bridge l.bridge ++ s.2) := by
  have hsub : ∀ p ∈ answer s.1.bridge l.bridge, p ∈ s.2 := by
    rintro ⟨n, r⟩ hp
    obtain ⟨x, hx, hrecorded, rfl, rfl⟩ := mem_answer.mp hp
    rw [hbridge] at hx
    refine (h.bridge x hx (hrecorded.resolve_right fun hne => hne ?_)).1
    rw [Bridge.ensureSession, hx]
    rfl
  have hmem : ∀ p, p ∈ answer s.1.bridge l.bridge ++ s.2 ↔ p ∈ s.2 := fun p =>
    ⟨fun hp => (List.mem_append.mp hp).elim (hsub p) id, List.mem_append_right _⟩
  refine ⟨hleaf.mono fun p => (hmem p).mpr, fun x hx hvalid => ?_, fun b r r' hr hr' => ?_⟩
  · dsimp only at hx
    rw [hbridge] at hx
    exact ⟨(hmem _).mpr (h.bridge x hx hvalid).1, (h.bridge x hx hvalid).2⟩
  · exact h.unique b r r' ((hmem _).mp hr) ((hmem _).mp hr')

/-- A call into the bridge: the pair that it holds is the old one, or its bridge nonce is new. -/
theorem Keyed.call_bridge (h : Keyed P s) (k : Bridge.Call) (hok : Answered s (.bridge k)) :
    Keyed P (stepAnswers P s (.bridge k)) := by
  set b := s.1.bridge.call P.crypto k with hb
  have hsource := Bridge.call_keySource P.crypto s.1.bridge k
  rw [← hb] at hsource
  change Keyed P ({ s.1 with bridge := b }, answer s.1.bridge b ++ s.2)
  refine ⟨h.leaf.mono fun p => List.mem_append_right _, fun x hx hvalid => ?_, ?_⟩
  · have hx : b.session? = some x := hx
    refine ⟨List.mem_append_left _ ?_, ?_⟩
    · exact mem_answer.mpr ⟨x, hx, .inl hvalid, rfl, rfl⟩
    · cases hsource x hx with
      | held x₀ hx₀ hbridge hremote hkey hold =>
        rw [hkey, hbridge, hremote]
        exact (h.bridge x₀ hx₀ (hold hvalid)).2
      | drawn e senderMac data rssi f hk hf htype hbridge hremote hkey => rw [hkey, hbridge, hremote]
      | created _ hnone hbridge hfresh => exact absurd (hfresh.symm.trans hvalid) Bool.false_ne_true
  · -- every pair that is recorded has a bridge nonce that determines its remote nonce
    have hnew : ∀ n r r', (n, r) ∈ answer s.1.bridge b → (n, r') ∈ answer s.1.bridge b ++ s.2 →
        r' = r := by
      intro n r r' hr hr'
      obtain ⟨x, hx, hrecorded, rfl, rfl⟩ := mem_answer.mp hr
      rcases List.mem_append.mp hr' with hnow | hbefore
      · obtain ⟨y, hy, -, -, rfl⟩ := mem_answer.mp hnow
        rw [Option.some.inj (hx.symm.trans hy)]
      · cases hsource x hx with
        | held x₀ hx₀ hbridge hremote hkey hold =>
          have hvalid := hrecorded.resolve_right fun hne => hne (by
            rw [Bridge.ensureSession, hx₀]
            exact hbridge)
          refine h.unique _ r' _ hbefore ?_
          rw [hbridge, hremote]
          exact (h.bridge x₀ hx₀ (hold hvalid)).1
        | drawn e senderMac data rssi f hk hf htype hbridge hremote hkey =>
          subst hk
          rw [hbridge] at hbefore
          exact absurd hbefore (hok r')
        | created _ hnone hbridge hfresh =>
          have hne := hrecorded.resolve_left (by rw [hfresh]; exact Bool.false_ne_true)
          refine absurd ?_ hne
          rw [hbridge, Bridge.ensureSession, hnone]
          rfl
    intro n r r' hr hr'
    rcases List.mem_append.mp hr with hr₁ | hr₁
    · exact (hnew n r r' hr₁ hr').symm
    · rcases List.mem_append.mp hr' with hr₂ | hr₂
      · exact hnew n r' r hr₂ hr
      · exact h.unique n r r' hr₁ hr₂

/-- One event keeps the two ends keyed, if what the leaf accepts in it is an answer to its present
nonce. -/
theorem Keyed.step (h : Keyed P s) {ev : Event η} (hok : Answered s ev) :
    Keyed P (stepAnswers P s ev) := by
  cases ev with
  | leaf c =>
    exact h.same_bridge (l := { s.1 with leaf := s.1.leaf.call P c }) rfl
      (Remote.call_invariant (fun _ _ ht hmove => ht.move hok hmove) h.leaf)
  | bridge k => exact h.call_bridge k hok
  | restartLeaf fresh =>
    refine h.same_bridge (l := { s.1 with leaf := s.1.leaf.restart fresh }) rfl ?_
    have hfresh : LeafKeyed P s.2 fresh := .registered hok
    exact ⟨⟨hfresh.flags.normal, hfresh.flags.resuming⟩, hfresh.keyed⟩

theorem InitAnswers.keyed (h : InitAnswers s) : Keyed P s := by
  obtain ⟨hinit, hanswers⟩ := h
  refine ⟨LeafKeyed.registered hinit.leaf, fun x hx => ?_, fun b r r' hr => ?_⟩
  · rw [hinit.session] at hx
    cases hx
  · rw [hanswers] at hr
    cases hr

/-- So does every run of such events. -/
theorem AnsweredReachable.keyed (h : AnsweredReachable P s) : Keyed P s :=
  Transition.Reachable.invariant (I := Keyed P) (fun _ => InitAnswers.keyed)
    (fun _ _ hk hok => hk.step hok) h

end

/-- The two ends agree: with the same bridge nonce they hold the same key. -/
def KeysAgree (l : Link η) : Prop :=
  ∀ x, l.bridge.session? = some x → l.leaf.session.joined → x.sessionKeyValid →
    l.leaf.session.bridgeNonce = x.bridgeNonce → l.leaf.session.sessionKey = x.sessionKey

/-- In every run in which a leaf only accepts answers to a `JOIN` with its present nonce, and the
bridge draws each nonce once, the keys agree. -/
theorem keys_agree (P : Remote.Platform η) (s : Link η × Answers) (h : AnsweredReachable P s) :
    s.1.KeysAgree := by
  intro x hx hjoined hvalid hsame
  obtain ⟨hleaf, hleafKey⟩ := h.keyed.leaf.keyed hjoined
  obtain ⟨hbridge, hbridgeKey⟩ := h.keyed.bridge x hx hvalid
  rw [hsame] at hleaf
  rw [hleafKey, hbridgeKey, hsame, h.keyed.unique _ _ _ hleaf hbridge]

/-! ## A late answer -/

/-- The condition for a leaf, as it is evaluated on a concrete call. -/
theorem answered_leaf {s : Link η × Answers} {c : Remote.Call}
    (h : c.frame?.all (fun f => f.type? != some .joinAck ||
      ((JoinAck.parse f.payload).bridgeNonce, s.1.leaf.session.remoteNonce) ∈ s.2)) :
    Answered s (.leaf c) := by
  intro f hf haccepts
  rw [hf, Option.all_some, haccepts.type] at h
  simpa using h

/-- The leaf has sent a `JOIN` with its first nonce. -/
def joiningLink : Link Unit := Transition.runFrom (step .sample) sample (joinEvents (sampleNonce 1) 0)

/-- The bridge has answered it. -/
def answeringEvent : Event Unit := toBridge 70 (sampleNonce 7) (joiningLink.leafSent.headD [])

/-- The answer, which the bridge sent before it asked for the schema. -/
def joinAnswer : Bytes := (joiningLink.step .sample answeringEvent).bridgeSent.getD 1 []

/-- The answer arrives. -/
def joinedRun : List (Event Unit) :=
  joinEvents (sampleNonce 1) 0 ++ [answeringEvent, toLeaf 80 (sampleNonce 1) joinAnswer]

def joinedLink : Link Unit × Answers :=
  Transition.runFrom (stepAnswers .sample) (sample, []) joinedRun

theorem joinedLink_reachable : AnsweredReachable .sample joinedLink := by
  have hstart : AnsweredReachable .sample (sample, []) := .start ⟨sample_init, rfl⟩
  refine hstart.runFrom ⟨?_, ?_, ?_, ?_, ?_, fun r => ?_, ?_, trivial⟩
  · exact answered_leaf rfl
  · exact answered_leaf rfl
  · exact answered_leaf (by decide +kernel)
  · exact answered_leaf rfl
  · exact answered_leaf rfl
  · have hnone : (Transition.runFrom (stepAnswers .sample) (sample, [])
        (joinEvents (sampleNonce 1) 0)).2 = [] := by decide +kernel
    exact hnone ▸ List.not_mem_nil
  · exact answered_leaf (by decide +kernel)

/-- After a first join both ends hold the nonce of the bridge, and the keys agree. -/
theorem keys_agree_joinedLink :
    joinedLink.1.leaf.session.joined ∧
      (joinedLink.1.bridge.session?.any fun x => x.sessionKeyValid &&
        decide (joinedLink.1.leaf.session.bridgeNonce = x.bridgeNonce)) ∧
      joinedLink.1.KeysAgree :=
  ⟨by decide +kernel, by decide +kernel, keys_agree .sample joinedLink joinedLink_reachable⟩

/-- The answer is late: by then the leaf has given up its attempts and drawn a new nonce. -/
def lateRun : List (Event Unit) :=
  joinEvents (sampleNonce 1) 0 ++ answeringEvent ::
    ([400, 900, 2000, 4000, 4100].map fun now => .leaf (.loop (.quiet now (sampleNonce 2)))) ++
    [toLeaf 4200 (sampleNonce 2) joinAnswer]

def lateLink : Link Unit := Transition.runFrom (step .sample) sample lateRun

/-- Both ends hold the same bridge nonce and different keys, although every frame that was
delivered had been sent. -/
theorem keys_differ_lateLink :
    Transition.Reachable Init (fun _ ev => ev.Possible) (step .sample) lateLink ∧
      joinAnswer ∈ lateLink.bridgeSent ∧ ¬ lateLink.KeysAgree := by
  refine ⟨?_, by decide +kernel, fun h => ?_⟩
  · have hstart : Transition.Reachable Init (fun _ ev => ev.Possible) (step .sample) sample :=
      .start sample_init
    exact hstart.runFrom (by simp [Transition.Admits, lateRun, joinEvents, Remote.discoverCalls,
      Event.Possible, answeringEvent, toBridge, toLeaf])
  · have hdiffer : lateLink.leaf.session.joined ∧ lateLink.bridge.session?.any (fun x =>
        x.sessionKeyValid && decide (lateLink.leaf.session.bridgeNonce = x.bridgeNonce) &&
          decide (lateLink.leaf.session.sessionKey ≠ x.sessionKey)) := by decide +kernel
    obtain ⟨hjoined, hany⟩ := hdiffer
    obtain ⟨x, hx, hboth⟩ := (Option.any_eq_true _ _).mp hany
    simp only [Bool.and_eq_true, decide_eq_true_eq] at hboth
    exact hboth.2 (h x hx hjoined hboth.1.1 hboth.1.2)

end Link

end EspTree
