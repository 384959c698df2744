import EspTree.File.Transfer

/-!
# The handler for updates

`FileReceiver::OTAFlashHandler`: the handler that writes a file into the next update partition.  It has
no use for the sequence numbers: the bytes of each accepted call go behind those of the last one, into the
partition and into the running MD5.

What the chip does is in `Chip`.  Each call of `esp_ota_write` succeeds or not as it pleases.

`onData` is called with the pieces of an increment in their order; when one is refused, what has
been written stays written.  `onEnd` compares the length and the MD5, ends the update and makes the
partition the one to boot from, in the order of the source, so that each failure has the reason that
the source gives it.
-/

namespace EspTree

open Wire

namespace FileReceiver

/-! ## The handler -/

/-- The chip and its libraries. -/
structure Chip where
  /-- The size of the next update partition. -/
  partitionSize : Option Nat
  /-- `esp_ota_begin`. -/
  begins : Bool
  /-- `heap_caps_get_largest_free_block`. -/
  largestFree : Nat
  /-- The calls of `esp_ota_write`, in their order. -/
  writes : Nat → Bool
  /-- `esp_ota_end`. -/
  ends : Bool
  /-- `esp_ota_set_boot_partition`. -/
  setsBoot : Bool
  md5 : Bytes → Octets 16

/-- `OTAFlashHandler::State`. -/
inductive OtaState
  | idle | receiving | verifying
  deriving DecidableEq, Repr

/-- The fields of `OTAFlashHandler`.  `fed` is what the digest was fed with since its `init`, and
`writeCalls` counts the calls of `esp_ota_write`. -/
structure OtaFlash where
  state : OtaState := .idle
  fileSize : UInt32 := 0
  expectedMd5 : Octets 16 := Octets.zero 16
  maxChunkSize : UInt16 := 221
  totalWritten : UInt32 := 0
  restartRequested : Bool := false
  fed : Bytes := []
  md5Active : Bool := false
  writeCalls : Nat := 0
  deriving DecidableEq

/-- `ESPNOW_FILE_REJECT_BUSY`. -/
def rejectBusy : UInt8 := 0x01

/-- `ESPNOW_FILE_COMPLETE_*`. -/
def completeMd5Mismatch : UInt8 := 0x01
def completeFlashError : UInt8 := 0x02
def completeWriteError : UInt8 := 0x03
def completeAborted : UInt8 := 0x04

/-- `kEspImageMagic`. -/
def espImageMagic : UInt8 := 0xE9

namespace OtaFlash

variable (chip : Chip)

def resetState (h : OtaFlash) : OtaFlash :=
  { h with
    state := .idle
    fileSize := 0
    totalWritten := 0
    restartRequested := false
    expectedMd5 := Octets.zero 16
    md5Active := false }

def beginMd5 (h : OtaFlash) : OtaFlash := { h with fed := [], md5Active := true }

/-- Half of the largest free block in kilobytes, within the limits of `on_announce`. -/
def heapKb : UInt16 :=
  let kb := UInt16.ofNat (chip.largestFree * 50 / 100 / 1024)
  let kb := if kb < 8 then 8 else kb
  if UInt16.ofNat maxIncrementKb < kb then UInt16.ofNat maxIncrementKb else kb

def onAnnounce (h : OtaFlash) (fileSize : UInt32) (md5 : Octets 16) (chunkSize : UInt16)
    (_action : UInt8) (_fileId : Octets 12) (bufferSizeKb : UInt16) :
    OtaFlash × AnnounceResponse × UInt16 :=
  let refuse (reason : UInt8) (kb : UInt16) : OtaFlash × AnnounceResponse × UInt16 :=
    (h, ⟨false, reason, 0⟩, kb)
  if h.state ≠ .idle then refuse rejectAlready bufferSizeKb
  else if fileSize = 0 ∨ chunkSize = 0 then refuse rejectUnsupported bufferSizeKb
  else
    let negotiated := if h.maxChunkSize < chunkSize then h.maxChunkSize else chunkSize
    if negotiated = 0 then refuse rejectUnsupported bufferSizeKb
    else
      match chip.partitionSize with
      | none => refuse rejectUnsupported bufferSizeKb
      | some size =>
        if size < fileSize.toNat then refuse rejectNoSpace bufferSizeKb
        else if !chip.begins then refuse rejectBusy bufferSizeKb
        else
          ({ h.beginMd5 with
              fileSize
              totalWritten := 0
              restartRequested := false
              expectedMd5 := md5
              state := .receiving }, ⟨true, rejectUnsupported, negotiated⟩, heapKb chip)

def onData (h : OtaFlash) (_sequence : Nat) (data : Bytes) : OtaFlash × Bool :=
  if h.state ≠ .receiving ∨ data = [] then (h, false)
  else if h.totalWritten = 0 ∧ data.head? ≠ some espImageMagic then (h, false)
  else
    let written := chip.writes h.writeCalls
    let h := { h with writeCalls := h.writeCalls + 1 }
    if !written then (h, false)
    else if !h.md5Active then (h, false)
    else
      ({ h with
          fed := h.fed ++ data
          totalWritten := h.totalWritten + UInt32.ofNat data.length }, true)

def onEnd (h : OtaFlash) : OtaFlash × UInt8 :=
  if h.state ≠ .receiving then (h, completeAborted)
  else if h.totalWritten ≠ h.fileSize then (h.resetState, completeWriteError)
  else if !h.md5Active then (h.resetState, completeFlashError)
  else if chip.md5 h.fed ≠ h.expectedMd5 then (h.resetState, completeMd5Mismatch)
  else if !chip.ends then (h.resetState, completeFlashError)
  else if !chip.setsBoot then (h.resetState, completeFlashError)
  else ({ h.resetState with restartRequested := true }, completeSuccess)

end OtaFlash

/-- `OTAFlashHandler`. -/
def otaFlash (chip : Chip) : ActionHandler OtaFlash where
  onAnnounce := OtaFlash.onAnnounce chip
  onData := OtaFlash.onData chip
  onEnd := OtaFlash.onEnd chip
  onAbort h _ := h.resetState
  isReceiving h := h.state != .idle
  wantsRestartAfterComplete h := h.restartRequested
  setMaxChunkSize h maxChunk := { h with maxChunkSize := maxChunk }

end FileReceiver

end EspTree
