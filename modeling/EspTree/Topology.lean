import EspTree.Lib.Pointers
import EspTree.Lib.System
import EspTree.Relay
import EspTree.Remote.Moves

/-!
# The tree of parents

Relays and leaves around one bridge, each running the code of a leaf, under any order of calls:
frames, loops and restarts.  Nothing is assumed about the frames.  Following `parent_mac_` should
never lead back, but a node chooses its parent from an announced hop count that may be stale, and
in a route recovery it may choose its own child.

`Net.depth` remembers with which hop count a node last had a valid parent; the code keeps that
number in `hops_to_bridge_` only as long as the parent is valid.  `Net.Safe` is the condition
under which taking a parent keeps the tree: the parent is less deep, and the children deeper.
-/

namespace EspTree

open Wire Pointers

variable {η : Type}

namespace Remote

/-! ## What one call does to the parent -/

/-- The call may make the best candidate the parent: a finished sweep, or the last `JOIN_ACK`. -/
def Takes (s : Remote η) (c : Call) : Prop :=
  (∃ e, c = .loop e ∧ s.discovery.discovering ∧ s.discovery.sweepComplete ∧
    s.route.bestParent.valid) ∨
  ∃ f, c.frame? = some f ∧ f.type? = some .joinAck ∧ f.header.leafMac = s.config.leafMac ∧
    (JoinAck.parse f.payload).accepted = 1 ∧
    (JoinAck.parse f.payload).stage = joinStatusComplete

/-- The call brings a frame of the node's own with a lower hop count than it thought. -/
def Lowers (s : Remote η) (c : Call) (f : Frame) : Prop :=
  c.frame? = some f ∧ f.header.leafMac = s.config.leafMac ∧ hopsIsUpstream f.header.hopCount ∧
    hopsCount f.header.hopCount < s.route.hopsToBridge

/-- The parent in the middle of a call that began in `s`. -/
structure ParentAt (s : Remote η) (c : Call) (t : Remote η) : Prop where
  mac : t.route.parentMac = s.route.parentMac ∨
    (s.Takes c ∧ t.route.parentMac = s.route.bestParent.nextHopMac)
  hops : t.route.parentValid →
    (s.route.parentValid ∧ t.route.parentMac = s.route.parentMac ∧
      (t.route.hopsToBridge = s.route.hopsToBridge ∨
        ∃ f, s.Lowers c f ∧ t.route.hopsToBridge = hopsCount f.header.hopCount)) ∨
    (s.Takes c ∧ t.route.parentMac = s.route.bestParent.nextHopMac ∧
      t.route.hopsToBridge = s.route.bestParent.hopsToBridge + 1)

theorem ParentAt.start (s : Remote η) (c : Call) : ParentAt s c s :=
  ⟨.inl rfl, fun h => .inl ⟨h, rfl, .inl rfl⟩⟩

/-- A move that leaves the parent alone. -/
theorem ParentAt.same {s t t' : Remote η} {c : Call} (h : ParentAt s c t)
    (hmac : t'.route.parentMac = t.route.parentMac)
    (hvalid : t'.route.parentValid = t.route.parentValid)
    (hhops : t'.route.hopsToBridge = t.route.hopsToBridge) : ParentAt s c t' := by
  refine ⟨hmac ▸ h.mac, ?_⟩
  rw [hvalid, hmac, hhops]
  exact h.hops

/-- A move that takes the best candidate. -/
theorem ParentAt.taken {s t : Remote η} {c : Call} (htakes : s.Takes c)
    (hbest : t.route.bestParent = s.route.bestParent) {t' : Remote η}
    (ht : t'.route = t.route.takeBestParent) : ParentAt s c t' := by
  have hmac : t'.route.parentMac = s.route.bestParent.nextHopMac := by
    rw [ht, ← hbest]
    rfl
  refine ⟨.inr ⟨htakes, hmac⟩, fun _ => .inr ⟨htakes, hmac, ?_⟩⟩
  rw [ht, ← hbest]
  rfl

/-- A move keeps what a call can do to the parent: it stays, or the best candidate of the time
before the call takes its place. -/
theorem ParentAt.move {P : Platform η} {s t t' : Remote η} {c : Call} (h : ParentAt s c t)
    (hm : Move P c s t t') : ParentAt s c t' := by
  cases hm with
  | route r hmac hvalid hhops => exact h.same hmac hvalid hhops
  | lowerHops f hf hmac hup hlt hparent hvalid =>
    refine ⟨.inl hparent, fun ht => .inl ⟨hvalid ▸ ht, hparent, .inr ⟨f, ⟨hf, hmac, hup, hlt⟩, rfl⟩⟩⟩
  | take e hc hbest hv hdisc hsweep =>
    exact .taken (.inl ⟨e, hc, hdisc, hsweep, hv⟩) hbest rfl
  | complete f hf htype hmac haccepted hstage hbest hjoined =>
    exact .taken (.inr ⟨f, hf, htype, hmac, haccepted, hstage⟩) hbest rfl
  | clear preserveRoute =>
    cases preserveRoute with
    | true => exact h.same rfl rfl rfl
    | false => exact ⟨h.mac, fun ht => by cases ht⟩
  | _ => exact h.same rfl rfl rfl

theorem call_parentAt (P : Platform η) (s : Remote η) (c : Call) : ParentAt s c (s.call P c) :=
  call_invariant (fun _ _ h hm => h.move hm) (.start s c)

end Remote

/-! ## The net -/

/-- The nodes, and with which hop count each of them last had a valid parent. -/
structure Net (η : Type) where
  nodes : Mesh η
  depth : Mac → Option UInt8

namespace Net

/-- What can happen: a call into a node, or its restart. -/
inductive Event (η : Type)
  | call (a : Mac) (c : Remote.Call)
  | restart (a : Mac) (s : Remote η)

/-- The depth of a node after a call. -/
def depthAfter (before : Option UInt8) (s s' : Remote η) : Option UInt8 :=
  if s'.route.parentValid then some s'.route.hopsToBridge
  else if s'.route.parentMac = s.route.parentMac then before
  else some (s.route.bestParent.hopsToBridge + 1)

variable (P : Remote.Platform η) (bridge : Mac)

def step (net : Net η) : Event η → Net η
  | .call a c =>
    { nodes := Function.update net.nodes a ((net.nodes a).call P c)
      depth := Function.update net.depth a
        (depthAfter (net.depth a) (net.nodes a) ((net.nodes a).call P c)) }
  | .restart a s =>
    { nodes := Function.update net.nodes a s
      depth := Function.update net.depth a none }

/-- A node that has just started. -/
def Started (s : Remote η) : Prop := s.route.parentMac = Octets.zero 6 ∧ s.route.parentValid = false

def Init (net : Net η) : Prop := ∀ a, Started (net.nodes a) ∧ net.depth a = none

/-- The parent of a node: the bridge has none, and the zero address is none. -/
def parent? (net : Net η) (a : Mac) : Option Mac :=
  if a = bridge ∨ (net.nodes a).route.parentMac = Octets.zero 6 then none
  else some (net.nodes a).route.parentMac

/-- Node `a` may take `p` as its parent at hop count `h`: the parent is less deep, and every node
that has `a` as its parent is deeper. -/
structure Safe (net : Net η) (a p : Mac) (h : UInt8) : Prop where
  self : p ≠ a
  above : p ≠ bridge → ∀ d, net.depth p = some d → d < h
  below : ∀ x, (net.nodes x).route.parentMac = a → ∀ d, net.depth x = some d → h < d

/-- The condition on one step. -/
def Ok (net : Net η) : Event η → Prop
  | .call a c =>
    ((net.nodes a).Takes c → net.Safe bridge a (net.nodes a).route.bestParent.nextHopMac
      ((net.nodes a).route.bestParent.hopsToBridge + 1)) ∧
    ∀ f, (net.nodes a).Lowers c f → (net.nodes a).route.parentMac ≠ bridge →
      ∀ d, net.depth (net.nodes a).route.parentMac = some d → d < hopsCount f.header.hopCount
  | .restart _ s => Started s

/-- The rank of a node: the bridge and the nodes that never had a parent are at the top. -/
def rank (net : Net η) (a : Mac) : Nat :=
  if a = bridge then 0 else ((net.depth a).map (fun d => d.toNat + 1)).getD 0

/-- The invariant: depths grow away from the bridge. -/
structure Layered (net : Net η) : Prop where
  fresh : ∀ a, net.depth a = none →
    (net.nodes a).route.parentMac = Octets.zero 6 ∧ (net.nodes a).route.parentValid = false
  valid : ∀ a, (net.nodes a).route.parentValid → net.depth a = some (net.nodes a).route.hopsToBridge
  deeper : ∀ a, ∀ d, net.depth a = some d → (net.nodes a).route.parentMac ≠ Octets.zero 6 →
    (net.nodes a).route.parentMac ≠ bridge →
    ∀ d', net.depth (net.nodes a).route.parentMac = some d' → d' < d

variable {P} {bridge} {net : Net η}

/-- In a layered net the pointer to the parent goes down in rank. -/
theorem Layered.rank_lt (h : net.Layered bridge) (a b : Mac) (hb : net.parent? bridge a = some b) :
    net.rank bridge b < net.rank bridge a := by
  unfold parent? at hb
  split at hb
  · cases hb
  next hab =>
    obtain ⟨hne, hzero⟩ := not_or.mp hab
    obtain rfl := Option.some.inj hb
    -- a node with a parent has a depth
    obtain ⟨d, hd⟩ : ∃ d, net.depth a = some d := by
      cases hdepth : net.depth a with
      | none => exact absurd (h.fresh a hdepth).1 hzero
      | some d => exact ⟨d, rfl⟩
    have ha : net.rank bridge a = d.toNat + 1 := by simp [rank, hne, hd]
    rw [ha, rank]
    split
    · exact Nat.succ_pos _
    next hp =>
      cases hdepth : net.depth (net.nodes a).route.parentMac with
      | none => exact Nat.succ_pos _
      | some d' =>
        have := UInt8.lt_iff_toNat_lt.mp (h.deeper a d hd hzero hp d' hdepth)
        simpa using this

theorem init_layered (h : net.Init) : net.Layered bridge where
  fresh a _ := (h a).1
  valid a hv := by rw [(h a).1.2] at hv; cases hv
  deeper a d hd := by rw [(h a).2] at hd; cases hd

/-- In a layered net no node is its own parent. -/
theorem Layered.not_own_parent (h : net.Layered bridge) {a : Mac} {d : UInt8}
    (hd : net.depth a = some d) (hzero : (net.nodes a).route.parentMac ≠ Octets.zero 6)
    (hbridge : (net.nodes a).route.parentMac ≠ bridge) : (net.nodes a).route.parentMac ≠ a := by
  intro hself
  have hlt := h.deeper a d hd hzero hbridge d (by rw [hself]; exact hd)
  exact absurd hlt (UInt8.lt_irrefl _)

/-- A node that has a depth after a call kept it, lowered it or took a parent. -/
theorem Layered.depthAfter_cases (h : net.Layered bridge) (a : Mac) (c : Remote.Call) {d : UInt8}
    (hd : depthAfter (net.depth a) (net.nodes a) ((net.nodes a).call P c) = some d) :
    (((net.nodes a).call P c).route.parentMac = (net.nodes a).route.parentMac ∧
      (net.depth a = some d ∨ ∃ f d₀, (net.nodes a).Lowers c f ∧ d = hopsCount f.header.hopCount ∧
        net.depth a = some d₀ ∧ d < d₀)) ∨
    ((net.nodes a).Takes c ∧
      ((net.nodes a).call P c).route.parentMac = (net.nodes a).route.bestParent.nextHopMac ∧
      d = (net.nodes a).route.bestParent.hopsToBridge + 1) := by
  have hparent := Remote.call_parentAt P (net.nodes a) c
  unfold depthAfter at hd
  split at hd
  next hvalid =>
    obtain rfl := Option.some.inj hd
    rcases hparent.hops hvalid with ⟨hv, hmac, hsame | ⟨f, hf, hlow⟩⟩ | ⟨htakes, hmac, hh⟩
    · exact .inl ⟨hmac, .inl (hsame ▸ h.valid a hv)⟩
    · refine .inl ⟨hmac, .inr ⟨f, _, hf, hlow, h.valid a hv, ?_⟩⟩
      rw [hlow]
      exact hf.2.2.2
    · exact .inr ⟨htakes, hmac, hh⟩
  · split at hd
    next hmac => exact .inl ⟨hmac, .inl hd⟩
    next hmac =>
      obtain ⟨htakes, hmac'⟩ := hparent.mac.resolve_left hmac
      exact .inr ⟨htakes, hmac', (Option.some.inj hd).symm⟩

/-- The depth below which the children of a node are stays below. -/
theorem Layered.child_deeper (h : net.Layered bridge) {a : Mac} {c : Remote.Call}
    (hok : net.Ok bridge (.call a c)) (ha : a ≠ Octets.zero 6) (hab : a ≠ bridge) {x : Mac}
    (hx : (net.nodes x).route.parentMac = a) {d d' : UInt8} (hd : net.depth x = some d)
    (hd' : depthAfter (net.depth a) (net.nodes a) ((net.nodes a).call P c) = some d') : d' < d := by
  have hold : ∀ d₀, net.depth a = some d₀ → d₀ < d := by
    intro d₀ hd₀
    exact h.deeper x d hd (hx ▸ ha) (hx ▸ hab) d₀ (hx ▸ hd₀)
  rcases h.depthAfter_cases a c hd' with ⟨-, hkept | ⟨f, d₀, -, -, hd₀, hlt⟩⟩ | ⟨htakes, -, rfl⟩
  · exact hold _ hkept
  · exact UInt8.lt_trans hlt (hold _ hd₀)
  · exact (hok.1 htakes).below x hx d hd

/-- The parent of a node that has made a call is less deep than the node. -/
theorem Layered.parent_shallower (h : net.Layered bridge) {a : Mac} {c : Remote.Call}
    (hok : net.Ok bridge (.call a c)) {d d' : UInt8}
    (hd : depthAfter (net.depth a) (net.nodes a) ((net.nodes a).call P c) = some d)
    (hzero : ((net.nodes a).call P c).route.parentMac ≠ Octets.zero 6)
    (hbridge : ((net.nodes a).call P c).route.parentMac ≠ bridge)
    (hd' : net.depth ((net.nodes a).call P c).route.parentMac = some d') : d' < d := by
  rcases h.depthAfter_cases a c hd with ⟨hmac, hkept⟩ | ⟨htakes, hmac, rfl⟩
  · rw [hmac] at hzero hbridge hd'
    rcases hkept with hkept | ⟨f, d₀, hf, rfl, -, -⟩
    · exact h.deeper a d hkept hzero hbridge d' hd'
    · exact hok.2 f hf hbridge d' hd'
  · rw [hmac] at hbridge hd'
    exact (hok.1 htakes).above hbridge d' hd'

/-- A call does not make a node its own parent. -/
theorem Layered.call_not_own_parent (h : net.Layered bridge) {a : Mac} {c : Remote.Call}
    (hok : net.Ok bridge (.call a c)) {d : UInt8}
    (hd : depthAfter (net.depth a) (net.nodes a) ((net.nodes a).call P c) = some d)
    (hzero : ((net.nodes a).call P c).route.parentMac ≠ Octets.zero 6)
    (hbridge : ((net.nodes a).call P c).route.parentMac ≠ bridge) :
    ((net.nodes a).call P c).route.parentMac ≠ a := by
  rcases h.depthAfter_cases a c hd with ⟨hmac, hkept⟩ | ⟨htakes, hmac, -⟩
  · rw [hmac] at hzero hbridge ⊢
    rcases hkept with hkept | ⟨f, d₀, -, -, hd₀, -⟩
    · exact h.not_own_parent hkept hzero hbridge
    · exact h.not_own_parent hd₀ hzero hbridge
  · rw [hmac]
    exact (hok.1 htakes).self

/-- A call that meets the condition keeps the net layered. -/
theorem call_layered (h : net.Layered bridge) {a : Mac} {c : Remote.Call}
    (hok : net.Ok bridge (.call a c)) : (net.step P (.call a c)).Layered bridge where
  fresh x hx := by
    by_cases hxa : x = a
    · subst hxa
      simp only [step, Function.update_self] at hx ⊢
      unfold depthAfter at hx
      split at hx
      · cases hx
      next hvalid =>
        split at hx
        next hmac => exact ⟨hmac.trans (h.fresh x hx).1, by simpa using hvalid⟩
        · cases hx
    · simp only [step, Function.update_of_ne hxa] at hx ⊢
      exact h.fresh x hx
  valid x hx := by
    by_cases hxa : x = a
    · subst hxa
      simp only [step, Function.update_self] at hx ⊢
      rw [depthAfter, if_pos hx]
    · simp only [step, Function.update_of_ne hxa] at hx ⊢
      exact h.valid x hx
  deeper x d hd hzero hbridge d' hd' := by
    by_cases hxa : x = a
    · subst hxa
      simp only [step, Function.update_self] at hd hzero hbridge hd'
      rw [Function.update_of_ne (h.call_not_own_parent hok hd hzero hbridge)] at hd'
      exact h.parent_shallower hok hd hzero hbridge hd'
    · simp only [step, Function.update_of_ne hxa] at hd hzero hbridge hd'
      by_cases hpa : (net.nodes x).route.parentMac = a
      · rw [hpa, Function.update_self] at hd'
        exact h.child_deeper hok (hpa ▸ hzero) (hpa ▸ hbridge) hpa hd hd'
      · rw [Function.update_of_ne hpa] at hd'
        exact h.deeper x d hd hzero hbridge d' hd'

/-- A restart does, since the node has no valid parent then. -/
theorem restart_layered (h : net.Layered bridge) {a : Mac} {s : Remote η} (hs : Started s) :
    (net.step P (.restart a s)).Layered bridge where
  fresh x hx := by
    by_cases hxa : x = a
    · subst hxa
      simp only [step, Function.update_self]
      exact hs
    · simp only [step, Function.update_of_ne hxa] at hx ⊢
      exact h.fresh x hx
  valid x hx := by
    by_cases hxa : x = a
    · subst hxa
      simp only [step, Function.update_self, hs.2, Bool.false_eq_true] at hx
    · simp only [step, Function.update_of_ne hxa] at hx ⊢
      exact h.valid x hx
  deeper x d hd hzero hbridge d' hd' := by
    by_cases hxa : x = a
    · subst hxa
      simp [step] at hd
    · simp only [step, Function.update_of_ne hxa] at hd hzero hbridge hd'
      by_cases hpa : (net.nodes x).route.parentMac = a
      · simp [hpa] at hd'
      · rw [Function.update_of_ne hpa] at hd'
        exact h.deeper x d hd hzero hbridge d' hd'

/-- The runs whose steps all meet the condition. -/
abbrev Reachable (P : Remote.Platform η) (bridge : Mac) : Net η → Prop :=
  Transition.Reachable Init (fun net ev => Ok bridge net ev) (step P)

/-- So does every event. -/
theorem step_layered (h : net.Layered bridge) {ev : Event η} (hok : net.Ok bridge ev) :
    (net.step P ev).Layered bridge := by
  cases ev with
  | call a c => exact call_layered h hok
  | restart a s => exact restart_layered h hok

theorem Reachable.layered (h : Reachable P bridge net) : net.Layered bridge :=
  Transition.Reachable.invariant (I := Layered bridge) (fun _ => init_layered)
    (fun _ _ hl hok => step_layered hl hok) h

/-- In every run in which a node takes a parent only when that parent is less deep and the node's
children are deeper, following `parent_mac_` from any node never leads back to it. -/
theorem parents_acyclic (P : Remote.Platform η) (bridge : Mac) (net : Net η)
    (h : Reachable P bridge net) (a : Mac) (n : Nat) :
    climb (net.parent? bridge) (n + 1) a ≠ some a :=
  climb_ne_self h.layered.rank_lt n a

/-! ## A relay and its child -/

/-- Addresses for the runs below: the bridge, a relay and its child. -/
def bridgeMac : Mac := Octets.fit 6 [9]
def relayMac : Mac := Octets.fit 6 [1]
def childMac : Mac := Octets.fit 6 [2]

/-- The broadcast with which `leaf` looks for a parent. -/
def discoverFrom (leaf : Mac) : Bytes :=
  (plain .sample leaf .discover (hopsMake 0 0) 0 none
    (Discover.bytes ⟨fixedField 32 [], 0, 1⟩)).bytes

/-- Every node has just started. -/
def startNet : Net Unit where
  nodes a := { config := { leafMac := a }, files := { handlers := fun _ => none } }
  depth _ := none

def quiet (now : UInt32) : Remote.Env := .quiet now (Octets.zero 16)

/-- The calls with which node `a` discovers `parent`, which announces `hops`, and joins through it. -/
def joinCalls (a parent : Mac) (role hops : UInt8) (now : UInt32) : List Remote.Call :=
  Remote.discoverCalls a parent role hops (Octets.zero 16) now ++
    [.frame (quiet (now + 70)) parent (Remote.joinAckTo a joinStatusComplete (Octets.zero 16) 1) (-90)]

def joinRun (a parent : Mac) (role hops : UInt8) (now : UInt32) : List (Event Unit) :=
  (joinCalls a parent role hops now).map (.call a)

/-- What is to be checked of a call of node `a`, when no other node has `a` as its parent. -/
def safeCall (bridge a : Mac) (net : Net η) (c : Remote.Call) : Bool :=
  let r := (net.nodes a).route
  r.parentMac != a && r.bestParent.nextHopMac != a &&
    (r.bestParent.nextHopMac == bridge ||
      (net.depth r.bestParent.nextHopMac).all (· < r.bestParent.hopsToBridge + 1)) &&
    c.frame?.all (fun f => !hopsIsUpstream f.header.hopCount)

/-- Each of the calls is checked before it is made. -/
def safeCalls (P : Remote.Platform η) (bridge a : Mac) (net : Net η) : List Remote.Call → Bool
  | [] => true
  | c :: cs => safeCall bridge a net c && safeCalls P bridge a (net.step P (.call a c)) cs

/-- No other node has `a` as its parent. -/
def Childless (a : Mac) (net : Net η) : Prop := ∀ x ≠ a, (net.nodes x).route.parentMac ≠ a

/-- The condition is only about the parent where the node that takes one has no children. -/
theorem Childless.ok {a : Mac} {c : Remote.Call} (h : Childless a net) (hsafe : safeCall bridge a net c) :
    net.Ok bridge (.call a c) := by
  simp only [safeCall, Bool.and_eq_true, Bool.or_eq_true, bne_iff_ne, beq_iff_eq] at hsafe
  obtain ⟨⟨⟨hself, hbest⟩, habove⟩, hdown⟩ := hsafe
  refine ⟨fun _ => ⟨hbest, fun hne d hd => ?_, fun x hx => ?_⟩, fun f hf => ?_⟩
  · have hdepth := habove.resolve_left hne
    rw [hd] at hdepth
    exact of_decide_eq_true hdepth
  · by_cases hxa : x = a
    · exact absurd (hxa ▸ hx) hself
    · exact absurd hx (h x hxa)
  · have hup := hf.2.2.1
    rw [hf.1] at hdown
    simp only [Option.all_some, hup] at hdown
    cases hdown

/-- Calls of a node without children, each of which has been checked, leave the others as they are. -/
theorem Reachable.safeCalls {a : Mac} {cs : List Remote.Call} (h : Reachable P bridge net) (hc : Childless a net)
    (hsafe : safeCalls P bridge a net cs) :
    Reachable P bridge (Transition.runFrom (step P) net (cs.map (.call a))) ∧
      ∀ x ≠ a, (Transition.runFrom (step P) net (cs.map (.call a))).nodes x = net.nodes x := by
  induction cs generalizing net with
  | nil => exact ⟨h, fun _ _ => rfl⟩
  | cons c cs ih =>
    rw [Net.safeCalls, Bool.and_eq_true] at hsafe
    have hothers : ∀ x ≠ a, (net.step P (.call a c)).nodes x = net.nodes x := by
      intro x hx
      exact Function.update_of_ne hx _ _
    have hchildless : Childless a (net.step P (.call a c)) := by
      intro x hx
      rw [hothers x hx]
      exact hc x hx
    obtain ⟨hreachable, hsame⟩ := ih (.next h (hc.ok hsafe.1)) hchildless hsafe.2
    exact ⟨hreachable, fun x hx => (hsame x hx).trans (hothers x hx)⟩

/-- The relay has joined through the bridge. -/
def relayNet : Net Unit := Transition.runFrom (step .sample) startNet (joinRun relayMac bridgeMac nodeRoleBridge 0 0)

/-- And its child through the relay. -/
def joinedNet : Net Unit := Transition.runFrom (step .sample) relayNet (joinRun childMac relayMac nodeRoleRelay 1 200)

theorem joinedNet_reachable : Reachable .sample bridgeMac joinedNet := by
  have hstart : Reachable .sample bridgeMac startNet := .start fun a => ⟨⟨rfl, rfl⟩, rfl⟩
  have hfresh (a : Mac) (ha : Octets.zero 6 ≠ a) : Childless a startNet := fun _ _ => ha
  obtain ⟨hrelay, hsame⟩ := hstart.safeCalls (hfresh relayMac (by decide)) (by decide +kernel :
    safeCalls .sample bridgeMac relayMac startNet (joinCalls relayMac bridgeMac nodeRoleBridge 0 0))
  have hchildless : Childless childMac relayNet := by
    intro x _
    by_cases hx : x = relayMac
    · subst hx
      decide +kernel
    · rw [relayNet, joinRun, hsame x hx]
      exact hfresh childMac (by decide) x ‹_›
  exact (Reachable.safeCalls hrelay hchildless (by decide +kernel :
    safeCalls .sample bridgeMac childMac relayNet (joinCalls childMac relayMac nodeRoleRelay 1 200))).1

/-- A relay under the bridge and a leaf under the relay: both are normal, and the parents of the
leaf lead to the bridge. -/
theorem parents_acyclic_joinedNet :
    (joinedNet.nodes relayMac).session.normal ∧ (joinedNet.nodes childMac).session.normal ∧
      climb (joinedNet.parent? bridgeMac) 2 childMac = some bridgeMac ∧
      climb (joinedNet.parent? bridgeMac) 1 relayMac ≠ some relayMac ∧
      climb (joinedNet.parent? bridgeMac) 2 childMac ≠ some childMac :=
  ⟨by decide +kernel, by decide +kernel, by decide +kernel,
    parents_acyclic .sample bridgeMac joinedNet joinedNet_reachable relayMac 0,
    parents_acyclic .sample bridgeMac joinedNet joinedNet_reachable childMac 1⟩

/-- The link of the relay to the bridge is weak, so it looks for another parent, and its own
child answers. -/
def recoveryRun : List (Event Unit) :=
  [.call relayMac (.loop (quiet 1000)), .call relayMac (.loop (quiet 130000)),
    .call relayMac (.loop (quiet 130001)),
    .call childMac (.frame (quiet 130002) relayMac (discoverFrom relayMac) (-50)),
    .call childMac (.loop (quiet 130010)),
    .call relayMac (.frame (quiet 130011) childMac (Remote.announceTo relayMac childMac nodeRoleRelay 2)
      (-50)),
    .call relayMac (.loop (quiet 130050)), .call relayMac (.loop (quiet 130060))]

/-- The net after all three. -/
def recoveredNet : Net Unit :=
  Transition.runFrom (step .sample) startNet (joinRun relayMac bridgeMac nodeRoleBridge 0 0 ++
    joinRun childMac relayMac nodeRoleRelay 1 200 ++ recoveryRun)

/-- A relay that recovers its route takes its own child as parent, although every frame of the
recovery was sent by one of the two and both are normal at the end. -/
theorem parents_cyclic_after_recovery :
    Transition.Reachable Init (fun _ _ => True) (step .sample) recoveredNet ∧
      .send Remote.broadcastMac (discoverFrom relayMac) true ∈
        (recoveredNet.nodes relayMac).radio.effects ∧
      .send relayMac (Remote.announceTo relayMac childMac nodeRoleRelay 2) true ∈
        (recoveredNet.nodes childMac).radio.effects ∧
      (recoveredNet.nodes relayMac).session.normal ∧ (recoveredNet.nodes childMac).session.normal ∧
      climb (recoveredNet.parent? bridgeMac) 2 relayMac = some relayMac := by
  refine ⟨?_, by decide +kernel, by decide +kernel, by decide +kernel, by decide +kernel,
    by decide +kernel⟩
  have hstart : Transition.Reachable Init (fun _ _ => True) (step .sample) startNet :=
    .start fun a => ⟨⟨rfl, rfl⟩, rfl⟩
  exact hstart.runFrom (by simp [Transition.Admits, joinRun, joinCalls, Remote.discoverCalls, recoveryRun])

end Net

end EspTree
