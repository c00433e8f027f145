import BootXf.Lib.LittleEndian
import BootXf.Lib.Program

/-!
# The Sahara target and what it talks to

Sahara is the protocol over which a host sends images to the boot loader or reads memory dumps
from it. `boot_sahara.c` runs on the target and reaches everything else through the tables of
`boot_sahara_interface`: the transport, the hash and authentication functions, the memory dump
tables. The host decides when a transfer completes, how long it was and with which error.

Every call out of the module is answered by `Host`: the answers to all calls are fixed in advance,
the n-th call taking the n-th answer, so that a statement about every `Host` is one about every
behaviour of the host, the transport and the tables. What the target has done so far stands in the
trace of the state, newest event first.
-/

namespace Sahara

open Lib

/-! ## Constants of `boot_sahara.h` -/

/-- `enum boot_sahara_state`. -/
inductive SaharaState
  | entry
  | waitHelloResp
  | waitReset
  | waitDone
  | dataBinaryHdr
  | dataBinary
  | dataElfHdr
  | dataElfProgHdr
  | dataElfSegments
  | waitMemoryRead
  | waitCmdExec
  | waitCmdExecData
  deriving DecidableEq, Repr

/-- `enum boot_sahara_status`, which the host may also send: any 32-bit number. -/
abbrev Status := UInt32

namespace Status

/-- `SAHARA_STATUS_SUCCESS`. -/
def success : Status := 0x00
/-- `SAHARA_NAK_INVALID_PACKET_SIZE`. -/
def invalidPacketSize : Status := 0x05
/-- `SAHARA_NAK_INVALID_DATA_SIZE`. -/
def invalidDataSize : Status := 0x08
/-- `SAHARA_NAK_INVALID_TX_LENGTH`. -/
def invalidTxLength : Status := 0x0A
/-- `SAHARA_NAK_GENERAL_TX_RX_ERROR`. -/
def generalTxRxError : Status := 0x0C
/-- `SAHARA_NAK_READ_DATA_ERROR`. -/
def readDataError : Status := 0x0D
/-- `SAHARA_NAK_TIMEOUT_RX`. -/
def timeoutRx : Status := 0x16
/-- `SAHARA_NAK_TIMEOUT_TX`. -/
def timeoutTx : Status := 0x17
/-- `SAHARA_NAK_INVALID_MEMORY_READ`. -/
def invalidMemoryRead : Status := 0x19

end Status

/-- `enum boot_sahara_mode`, which the host may send: any 32-bit number. -/
abbrev Mode := UInt32

namespace Mode

/-- `SAHARA_MODE_MEMORY_DEBUG`. -/
def memoryDebug : Mode := 0x2
/-- `SAHARA_MODE_LAST`, the first number that is no mode. -/
def last : Mode := 0x4

end Mode

/-- `enum boot_sahara_bulk_error`: zero, or the number of an error. -/
abbrev BulkError := UInt32

namespace BulkError

/-- `BULK_ERR_TIMEOUT`. -/
def timeout : BulkError := 0x6
/-- `BULK_ERR_UNKNOWN`. -/
def unknown : BulkError := 0x8
/-- `BULK_ERR_CABLE_DISCONNECT`. -/
def cableDisconnect : BulkError := 0xB

end BulkError

/-- `enum boot_sahara_image_type`, of which two are supported. -/
inductive ImageType
  | binary
  | elf
  | unknown
  deriving DecidableEq, Repr

/-- `SAHARA_MAX_MEMORY_DATA_SIZE_IN_BYTES`. -/
def maxMemoryDataSizeInBytes : UInt32 := 0x1000

/-! ## Where data goes to and comes from -/

/-- The objects that the module stores to: its buffers, and memory at large. -/
inductive Buffer
  | packet
  | elfHeader
  | progHeaders
  | hashTable
  | binaryHeader
  | binaryImageInfo
  | metaInfo
  | memory
  | skipData
  deriving DecidableEq, Repr

/-- A pointer into a buffer. For `memory` the offset is the address. -/
structure Ptr where
  buffer : Buffer
  offset : UInt64
  deriving DecidableEq, Repr

/-- `p += n`. -/
def Ptr.add (p : Ptr) (n : UInt32) : Ptr := { p with offset := p.offset + n.toUInt64 }

/-- What a transmission sends: a packet, by its fields, or memory from an address on. -/
inductive TxBuf
  | hello (mode : Mode)
  | readData (imageId dataOffset dataLength : UInt32)
  | endImageTx (imageId : UInt32) (status : Status)
  | doneResp (imageTxStatus : Mode)
  | resetResp
  | memoryDebug (memoryTableAddr : UInt64) (memoryTableLength : UInt32)
  | cmdReady
  | cmdExecResp (clientCommand respLength : UInt32)
  | memory (addr : UInt64)
  deriving DecidableEq, Repr

/-- How a transmission went: the callback may never come. -/
structure TxAnswer where
  completes : Bool
  bytesWritten : UInt32
  errCode : BulkError
  deriving DecidableEq, Repr

/-- How a reception went, and what was put at the buffer. -/
structure RxAnswer where
  completes : Bool
  bytesRead : UInt32
  errCode : BulkError
  data : Nat → UInt8

/-- What `preprocess_header` does to the program headers, and what it returns. -/
structure Preprocessed where
  segments : Memory
  segmentStartOffset : UInt32
  remainingSize : UInt32
  status : Status

/-- What the target does that can be seen from outside. -/
inductive Event
  /-- The transport was asked to put up to `length` bytes at a pointer. -/
  | rx (dst : Ptr) (length : UInt32)
  | tx (buf : TxBuf) (length : UInt32) (answer : TxAnswer)
  /-- Restricted memory was copied to a buffer, or not (`buf = 0`). -/
  | copyRestricted (addr len : UInt64) (buf : UInt64)
  /-- `memcpy` and `memset`. -/
  | store (dst : Ptr) (length : UInt64)
  /-- `valid_address_range` accepted a range. -/
  | validRange (start size : UInt64)
  /-- A chunk of an image was received in full. -/
  | received (dst : Ptr) (length : UInt32)
  | initHash (ok : Bool)
  | updateHash (buf : Ptr) (size : UInt32) (ok : Bool)
  | finalizeHash (digest : UInt64)
  | origHashIndex (sortedIndex originalIndex : UInt32)
  | compareHash (digest : UInt64) (index : UInt32) (ok : Bool)
  /-- The digest of a segment is about to be compared in the secure receiver: the bytes that it is
  the digest of, and the bytes that were received for the segment. -/
  | segmentCompared (index : Nat) (hashed received : List UInt8)
  | authenticate (header : Ptr) (ok : Bool)
  /-- The data of a segment is about to be received, and has been. -/
  | segmentStart (index : Nat)
  | segmentEnd (index : Nat)
  /-- The outcome of receiving an image, post processing included. -/
  | imageReceived (status : Status)
  /-- The fields of a HELLO_RESP that is handled, with the number of bytes received. -/
  | helloResp (length packetLength version versionSupported : UInt32) (status : Status)
      (mode : Mode)
  /-- The mode that a CMD_SWITCH_MODE of the right length asks for. -/
  | switchMode (mode : Mode)
  /-- `sahara_mode` was set. -/
  | modeSet (mode : Mode)
  /-- Receiving an image begins. -/
  | imageTransfer
  | imageRxComplete
  | waitDone
  deriving DecidableEq, Repr

end Sahara
