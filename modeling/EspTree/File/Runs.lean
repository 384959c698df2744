import EspTree.Lib.System
import EspTree.File.Receiver

/-!
# Runs of the file receiver

The receiver on its own, under every sequence of calls that its owner can make:
`handle_file_transfer`, `handle_file_data`, `loop`, `abort` and the setters.  Payloads,
clock readings and the outcome of each acknowledgement are up to the environment, so a
run says nothing about the other end.

The handlers are registered in the constructor and stay; `ackSent` numbers the
acknowledgements by those attempted so far.

That the calls come in any order covers what the leaf does with its receiver.  The clock is an input
of each call and need not go on, and an acknowledgement fails or is sent as the environment says; a
property that holds here holds under every radio and every scheduling of the loop.
-/

namespace EspTree

open Wire

namespace FileReceiver

variable {η : Type}

/-- What the environment decides in one call. -/
structure Env where
  now : UInt32
  ackSent : Nat → Bool

/-- A receiver with the acknowledgements that it has attempted. -/
structure Run (η : Type) where
  receiver : Receiver η
  acks : List Bytes := []

/-- The surroundings of a call: attempted acknowledgements are listed, sent or not. -/
def context (H : ActionHandler η) (e : Env) : Context η (List Bytes) where
  handler := H
  sendAckFn acks payload := (acks ++ [payload], e.ackSent acks.length)
  now := e.now

/-- The public functions of `FileReceiver`. -/
inductive Event
  | fileTransfer (e : Env) (payload : Bytes)
  | fileData (e : Env) (payload : Bytes)
  | loop (e : Env)
  | abort (e : Env) (reason : UInt8) (notifySender : Bool)
  | setAnnounceTxCounter (txCounter : UInt32)
  | setBlastCompleteTxCounter (txCounter : UInt32)
  | setOtaEnabled (enabled : Bool)
  | setDeepSleepActive (active : Bool)
  | setMaxChunkSize (maxChunk : UInt16)

namespace Run

/-- One call. -/
def step (H : ActionHandler η) (s : Run η) : Event → Run η
  | .fileTransfer e payload =>
    let (r, acks, _) := s.receiver.handleFileTransfer (context H e) s.acks payload
    { receiver := r, acks }
  | .fileData e payload =>
    { s with receiver := (s.receiver.handleFileData (context H e) payload).1 }
  | .loop e =>
    let (r, acks) := s.receiver.loop (context H e) s.acks
    { receiver := r, acks }
  | .abort e reason notifySender =>
    let (r, acks) := s.receiver.abort (context H e) s.acks reason notifySender
    { receiver := r, acks }
  | .setAnnounceTxCounter txCounter =>
    { s with receiver := { s.receiver with announceTxCounter := txCounter } }
  | .setBlastCompleteTxCounter txCounter =>
    { s with receiver := { s.receiver with lastBlastCompleteTxCounter := txCounter } }
  | .setOtaEnabled enabled => { s with receiver := { s.receiver with otaEnabled := enabled } }
  | .setDeepSleepActive active =>
    { s with receiver := { s.receiver with deepSleepActive := active } }
  | .setMaxChunkSize maxChunk =>
    { s with receiver := s.receiver.setMaxChunkSize H maxChunk }

/-- A receiver as the constructor leaves it, with whatever handlers it has. -/
def Initial (s : Run η) : Prop := ∃ handlers, s = { receiver := { handlers } }

end Run

end FileReceiver

end EspTree
