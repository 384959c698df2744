import EspTree.Bridge.Moves
import EspTree.Lib.System
import EspTree.Remote.Moves

/-!
# One leaf and the bridge

The two ends of a session as one system.  An event is a call into one of the ends; the radio
between them is not modelled further, because a call may deliver any bytes at all: loss, delay,
duplication and reordering of what was sent are among them.

Either end may restart at any time.  Their effects stay, so that a statement about a run sees what
happened before.

What a call leaves alone of the other end is trivial here, so an invariant about both ends is proved
by two step lemmas, one for each.  Its statement is usually about what was encrypted or sent so far,
which both ends only ever add to: `effects` is part of either state and survives a restart.  That is
also what makes a delivery of old bytes harmless to model; they need not be kept anywhere else.

The bridge is here the part of the bridge that one leaf concerns.  Frames of other leaves do not come
to it.
-/

namespace EspTree

open Wire

/-- A leaf and the bridge. -/
structure Link (η : Type) where
  leaf : Remote η
  bridge : Bridge

namespace Link

variable {η : Type}

/-- A call into one of the ends, or a restart of the leaf as `fresh`. -/
inductive Event (η : Type)
  | leaf (c : Remote.Call)
  | bridge (k : Bridge.Call)
  | restartLeaf (fresh : Remote η)

/-- The link after an event. -/
def step (P : Remote.Platform η) (l : Link η) : Event η → Link η
  | .leaf c => { l with leaf := l.leaf.call P c }
  | .bridge k => { l with bridge := l.bridge.call P.crypto k }
  | .restartLeaf fresh => { l with leaf := l.leaf.restart fresh }

/-- Both ends have just started. -/
structure Init (l : Link η) : Prop where
  leaf : l.leaf.Registered
  session : l.bridge.session? = none
  commandQueue : l.bridge.hub.commandQueue = []
  pendingConfigs : l.bridge.hub.pendingConfigs = []
  effects : l.bridge.hub.effects = []

/-- What is asked of every event: a leaf restarts with its entities registered. -/
def Event.Possible : Event η → Prop
  | .restartLeaf fresh => fresh.Registered
  | _ => True

/-! ## A link for concrete runs -/

/-- The frames that the leaf has handed to the radio, newest first. -/
def leafSent (l : Link η) : List Bytes :=
  l.leaf.radio.effects.filterMap fun
    | .send _ frame _ => some frame
    | _ => none

/-- The frames that the bridge has handed to the radio, newest first. -/
def bridgeSent (l : Link η) : List Bytes :=
  l.bridge.hub.effects.filterMap fun
    | .send _ frame _ => some frame
    | _ => none

def sampleLeafMac : Mac := Octets.fit 6 [1]
def sampleBridgeMac : Mac := Octets.fit 6 [9]

/-- A nonce that starts with `n`. -/
def sampleNonce (n : UInt8) : Nonce := Octets.fit 16 [n]

/-- A leaf with one switch, and the bridge. -/
def sample : Link Unit where
  leaf := Remote.registerEntity
    { config := { leafMac := sampleLeafMac }, files := { handlers := fun _ => none } } 5 [] [] [] []
  bridge := { leafMac := sampleLeafMac, hub := { config := { bridgeMac := sampleBridgeMac } } }

/-- The radio delivers `data` to the leaf, or to the bridge. -/
def toLeaf (now : UInt32) (nonce : Nonce) (data : Bytes) : Event Unit :=
  .leaf (.frame (.quiet now nonce) sampleBridgeMac data (-50))

def toBridge (now : UInt32) (nonce : Nonce) (data : Bytes) : Event Unit :=
  .bridge (.frame (.quiet now nonce) sampleLeafMac data (-50))

theorem sample_init : sample.Init :=
  ⟨.register (.fresh _ _ {}) (by decide) 5 [] [] [] [], rfl, rfl, rfl, rfl⟩

/-- The leaf discovers the bridge and sends a `JOIN` with the nonce `nonce`. -/
def joinEvents (nonce : Nonce) (now : UInt32) : List (Event Unit) :=
  (Remote.discoverCalls sampleLeafMac sampleBridgeMac nodeRoleBridge 0 nonce now).map .leaf

end Link

end EspTree
