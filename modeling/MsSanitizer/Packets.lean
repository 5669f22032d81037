import MsSanitizer.RecordDefs

/-!
# Packets

What a connection delivers, after decoding: the kinds of packets of `protocol.h` with the fields
that the code behind the decoder reads, and the jobs made of them.
-/

namespace MsSanitizer.Packets

open RecordDefs

/-- `PacketType`. The last three are the two answers of the server, never sent to it, and
`INVALID`. -/
inductive PacketType
  | deviceSummary | kernelSummary | kernelBinary | logString | memoryRecord | kernelRecord
  | ipcRecord | memRegionPermission | sanitizerRecord | gmAddrOutOfBoundRecord
  | peerAccessRecord | ipcResponse | kernelRecordResponse | invalid
  deriving DecidableEq, Repr

/-- `IPCMemRecord`: the union is read under the member that `type` names. -/
inductive IPCMemRecord
  | setInfo (addr size : ℕ) (name : String)
  | destroyInfo (name : String)
  | mapInfo (addr : ℕ) (name : String)
  | unmapInfo (addr : ℕ)
  deriving DecidableEq, Repr

inductive PeerAccessOp
  | enable | disable | reset
  /-- A code outside the enumeration. -/
  | other
  deriving DecidableEq, Repr

structure PeerAccessRecord where
  deviceId : ℤ
  peerDeviceId : ℤ
  operation : PeerAccessOp
  deriving DecidableEq, Repr

/-- `SanitizerRecord` by its version, with what the scheduler reads of it. -/
inductive SanitizerRecord
  | memoryRecord (type : MemOpType) (infoSrc : MemInfoSrc)
  | kernelRecord (recordType : ℕ)
  | ipcRecord
  | regionPermission
  deriving DecidableEq, Repr

inductive Payload
  | deviceSummary (deviceId : ℤ)
  | kernelSummary
  | kernelBinary
  | logString
  | memoryRecord (type : MemOpType) (infoSrc : MemInfoSrc)
  | kernelRecord
  | ipcRecord (record : IPCMemRecord)
  | memRegionPermission
  | sanitizerRecord (record : SanitizerRecord)
  | gmAddrOutOfBoundRecord
  | peerAccessRecord (record : PeerAccessRecord)
  deriving DecidableEq, Repr

def Payload.type : Payload → PacketType
  | .deviceSummary _ => .deviceSummary
  | .kernelSummary => .kernelSummary
  | .kernelBinary => .kernelBinary
  | .logString => .logString
  | .memoryRecord .. => .memoryRecord
  | .kernelRecord => .kernelRecord
  | .ipcRecord _ => .ipcRecord
  | .memRegionPermission => .memRegionPermission
  | .sanitizerRecord _ => .sanitizerRecord
  | .gmAddrOutOfBoundRecord => .gmAddrOutOfBoundRecord
  | .peerAccessRecord _ => .peerAccessRecord

structure Packet where
  orderId : ℕ
  payload : Payload
  deriving DecidableEq, Repr

/-- `OrderedPacketScheduler::Job`, without the channel for replies. Connections and checkers
are numbered. -/
structure Job where
  pid : ℤ
  connection : ℕ
  checker : ℕ
  packet : Packet
  deriving DecidableEq, Repr

/-- `GetOrderId`. -/
def Job.orderId (job : Job) : ℕ := job.packet.orderId

end MsSanitizer.Packets
