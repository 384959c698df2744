import EspTree.Message

/-!
# Fragment assemblies

Values that do not fit one frame travel as entity fragments under consecutive counters.
The reassembly buffer and its functions are duplicated in leaf and bridge;
`storeFragment` takes as a parameter the one difference between the copies: the bridge
takes the flags of a message from its last fragment.

`Assemblies` is the `std::map` from entity index to buffer that both sides keep.

A buffer is active from its first fragment on, and it belongs to one message: `openFor` refuses
fragments of another message or with another number of fragments.  Each fragment is written at its
index, into a slot of a fixed size, so that a fragment which is longer than its slot runs into the
next one.  A fragment that is there already is ignored.

`offerFragment` is what the handlers do around `storeFragment`.  It finds or creates the buffer,
gives it to a newer message if it is of an older one, and reserves its bytes.  Its result has the
buffer that the fragment went to, if any, since the callers go on with it.
-/

namespace EspTree

open Wire

/-- `espnow_fragment_assembly_t`. -/
structure FragmentAssembly where
  entityIndex : UInt8 := 0
  flags : UInt8 := 0
  fragmentCount : UInt8 := 0
  messageTxBase : UInt32 := 0
  firstSeenMs : UInt32 := 0
  lastSeenMs : UInt32 := 0
  bytesReceived : Nat := 0
  lengths : List Nat := []
  received : List Bool := []
  data : Bytes := []
  active : Bool := false
  deriving DecidableEq

/-- `ESPNOW_FRAGMENT_ASSEMBLY_TIMEOUT_MS`. -/
def fragmentAssemblyTimeoutMs : UInt32 := 5000
/-- `ESPNOW_MAX_PENDING_FRAGMENT_ASSEMBLIES`. -/
def maxPendingFragmentAssemblies : Nat := 8

namespace FragmentAssembly

/-- The first half of `store_fragment_`: open the buffer for a new message, or check that
the fragment belongs to the open one. -/
def openFor (a : FragmentAssembly) (view : EntityPayload) (base now : UInt32)
    (maxFragment maxAssembly : Nat) : Option FragmentAssembly :=
  if a.active then
    if a.messageTxBase ≠ base ∨ a.fragmentCount ≠ view.fragmentCount then none
    else some { a with lastSeenMs := now }
  else
    let reserved := view.fragmentCount.toNat * maxFragment
    if maxAssembly < reserved then none
    else some
      { entityIndex := view.entityIndex
        flags := view.flags
        fragmentCount := view.fragmentCount
        messageTxBase := base
        firstSeenMs := now
        lastSeenMs := now
        bytesReceived := 0
        lengths := List.replicate view.fragmentCount.toNat 0
        received := List.replicate view.fragmentCount.toNat false
        data := List.replicate reserved 0
        active := true }

/-- The bridge takes the flags of the last fragment. -/
def takeLastFlags (a : FragmentAssembly) (view : EntityPayload) : FragmentAssembly :=
  if view.fragmentIndex.toNat + 1 = a.fragmentCount.toNat then { a with flags := view.flags } else a

/-- Copying the bytes of a fragment into its place. -/
def put (a : FragmentAssembly) (view : EntityPayload) (maxFragment : Nat) : FragmentAssembly :=
  let i := view.fragmentIndex.toNat
  { a with
    data := overwrite a.data (i * maxFragment) view.value
    received := a.received.set i true
    lengths := a.lengths.set i (view.value.length % 2 ^ 16)
    bytesReceived := a.bytesReceived + view.value.length }

/-- `store_fragment_`.  A refused fragment may still have opened the buffer. -/
def storeFragment (lastFlags : Bool) (a : FragmentAssembly) (view : EntityPayload)
    (base now : UInt32) (maxFragment maxAssembly : Nat) : FragmentAssembly × Bool :=
  match a.openFor view base now maxFragment maxAssembly with
  | none => (a, false)
  | some a =>
    let a := if lastFlags then a.takeLastFlags view else a
    if a.received.getD view.fragmentIndex.toNat false then (a, true)
    else if a.data.length < view.fragmentIndex.toNat * maxFragment + view.value.length then
      (a, false)
    else (a.put view maxFragment,
      decide ((a.put view maxFragment).bytesReceived ≤ maxAssembly))

/-- `fragment_assembly_complete_`. -/
def complete (a : FragmentAssembly) : Bool :=
  a.active && a.fragmentCount != 0 &&
    (List.range a.fragmentCount.toNat).all (fun i => a.received.getD i false)

/-- A buffer that has all its fragments has begun a message. -/
theorem active_of_complete {a : FragmentAssembly} (h : a.complete) : a.active := by
  unfold complete at h
  simp only [Bool.and_eq_true] at h
  exact h.1.1

/-- `assemble_fragment_payload_`. -/
def assemble (a : FragmentAssembly) (maxFragment : Nat) : Bytes :=
  (List.range a.fragmentCount.toNat).flatMap
    (fun i => slice a.data (i * maxFragment) (a.lengths.getD i 0))

/-- The fragments of a message that has been quiet for too long are dropped. -/
def expired (now : UInt32) (a : FragmentAssembly) : Bool :=
  a.active && fragmentAssemblyTimeoutMs ≤ now - a.lastSeenMs

end FragmentAssembly

/-- The pending buffers, in the order of their keys' first insertion. -/
abbrev Assemblies := List (UInt8 × FragmentAssembly)

namespace Assemblies

/-- The buffer of an entity. -/
def get? (as : Assemblies) (entity : UInt8) : Option FragmentAssembly := as.lookup entity

/-- Replace or add the buffer of an entity. -/
def set (as : Assemblies) (entity : UInt8) (a : FragmentAssembly) : Assemblies :=
  if (as.lookup entity).isSome then as.map (fun p => if p.1 == entity then (entity, a) else p)
  else as ++ [(entity, a)]

/-- Remove the buffer of an entity. -/
def remove (as : Assemblies) (entity : UInt8) : Assemblies := as.filter (fun p => p.1 != entity)

end Assemblies

/-- One side's limits on fragments. -/
structure FragmentLimits where
  maxEntityFragment : Nat := 220
  maxAssemblyBytes : Nat := 1024
  maxTotalFragmentBytes : Nat := 4096
  deriving DecidableEq

/-- The limits that `update_mtu_from_route_` and `update_from_mtu` set. -/
def FragmentLimits.ofMtu (sessionMaxPayload : Nat) : FragmentLimits where
  maxEntityFragment := EspTree.maxEntityFragment sessionMaxPayload
  maxAssemblyBytes := EspTree.maxAssemblyBytes sessionMaxPayload
  maxTotalFragmentBytes := EspTree.maxTotalFragmentBytes sessionMaxPayload

/-- The outcome of offering a fragment to the pending buffers of one side: what is pending
and reserved (a 32-bit `size_t`) afterwards, and the buffer if the fragment was taken. -/
structure Stored where
  pending : Assemblies
  reserved : UInt32
  assembly : Option FragmentAssembly

/-- The part that the handlers of `COMMAND`, `STATE` and `SCHEMA_PUSH` share: find or create
the buffer of the entity, reset it for a newer message, check the caps and store. -/
def offerFragment (lastFlags : Bool) (limits : FragmentLimits) (pending : Assemblies)
    (reserved : UInt32) (view : EntityPayload) (base now : UInt32) : Stored :=
  let size := UInt32.ofNat (view.fragmentCount.toNat * limits.maxEntityFragment)
  let found := pending.get? view.entityIndex
  if found.isNone ∧ maxPendingFragmentAssemblies ≤ pending.length then ⟨pending, reserved, none⟩
  else
    let reserved := if found.isNone then reserved + size else reserved
    let a := found.getD {}
    -- a newer message takes the place of an unfinished one
    let a := if a.active && a.messageTxBase != base && a.messageTxBase < base then {} else a
    let pending := pending.set view.entityIndex a
    if ¬ a.active ∧ limits.maxTotalFragmentBytes < (reserved + size).toNat then ⟨pending, reserved, none⟩
    else
      let (a, ok) := a.storeFragment lastFlags view base now limits.maxEntityFragment
        limits.maxAssemblyBytes
      ⟨pending.set view.entityIndex a, reserved, if ok then some a else none⟩

end EspTree
