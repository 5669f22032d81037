import MsSanitizer.ByteWords
import MsSanitizer.Packets

/-!
# The packet protocol

The decoder of `protocol.cpp`. It keeps the bytes fed so far with the number of those already
used, the head of the packet at hand and the length of its payload, so that it can stop anywhere
and go on when more bytes come. The struct of a payload is copied byte by byte, so a payload is
here the string of its bytes; `sizeOf` gives the size of the struct for a type of packet. No
file descriptor is passed.
-/

namespace MsSanitizer.Protocol

open Packets ByteWords

/-! ### The extractor -/

def bytesDropThreshold : ℕ := 1024

/-- `MAX_STREAM_LEN`, 100 GiB. -/
def maxStreamLen : ℕ := 100 * 1024 * 1024 * 1024

/-- `MAX_LEGAL_ELF_SEGMENT_SIZE`, 16 GiB. -/
def maxLegalElfSegmentSize : ℕ := 16 * 1024 * 1024 * 1024

structure Extractor where
  bytes : List UInt8 := []
  offset : ℕ := 0
  deriving DecidableEq, Repr

namespace Extractor

def size (x : Extractor) : ℕ := x.bytes.length - x.offset

def dropUsedBytes (x : Extractor) : Extractor :=
  { bytes := x.bytes.drop (min x.offset x.bytes.length)
    offset := 0 }

def read (x : Extractor) (size : ℕ) : Option (List UInt8 × Extractor) :=
  if x.offset + size > x.bytes.length then none
  else if x.offset = 0 ∧ size = x.bytes.length then
    -- the whole buffer is handed over
    some (x.bytes, {})
  else
    let buffer := (x.bytes.drop x.offset).take size
    let y := { x with offset := x.offset + size }
    some (buffer, if y.offset > bytesDropThreshold then y.dropUsedBytes else y)

def feed (x : Extractor) (msg : List UInt8) : Extractor :=
  if x.bytes.length + msg.length < maxStreamLen then { x with bytes := x.bytes ++ msg } else x

end Extractor

/-! ### Packets -/

/-- The values of `PacketType`. -/
def PacketType.code : PacketType → ℕ
  | .deviceSummary => 0
  | .kernelSummary => 1
  | .kernelBinary => 2
  | .logString => 3
  | .memoryRecord => 1000
  | .kernelRecord => 1001
  | .ipcRecord => 1002
  | .memRegionPermission => 1003
  | .sanitizerRecord => 1004
  | .gmAddrOutOfBoundRecord => 1005
  | .peerAccessRecord => 1006
  | .ipcResponse => 3000
  | .kernelRecordResponse => 3001
  | .invalid => 0xFFFFFFFF

/-- The types in the `switch` of `IsKnownPacketType`. -/
def knownPacketTypes : List PacketType :=
  [.deviceSummary, .kernelSummary, .kernelBinary, .logString, .memoryRecord, .kernelRecord,
    .ipcRecord, .memRegionPermission, .sanitizerRecord, .gmAddrOutOfBoundRecord,
    .peerAccessRecord, .ipcResponse, .kernelRecordResponse]

/-- The type with a code; a code that `IsKnownPacketType` does not accept becomes `INVALID`. -/
def typeOfCode (code : ℕ) : PacketType :=
  (knownPacketTypes.find? fun t => PacketType.code t == code).getD .invalid

structure PacketHead where
  type : PacketType := .invalid
  reserved : ℕ := 0
  orderId : ℕ := 0
  deriving DecidableEq, Repr

/-- `sizeof(PacketHead)`. -/
def headSize : ℕ := 16

/-- `Deserialize<PacketHead>` and the check of `GetPacketHead`. -/
def headOf (b : List UInt8) : PacketHead where
  type := typeOfCode (val (b.take 4))
  reserved := val ((b.drop 4).take 4)
  orderId := val ((b.drop 8).take 8)

/-- `Packet`, with its payload as bytes. -/
structure RawPacket where
  type : PacketType
  orderId : ℕ
  payload : List UInt8
  deriving DecidableEq, Repr

/-! ### The decoder -/

/-- `MemCheckProtocol`, with the thread local `head` of `GetPacket` and `size` of
`GetBinaryData`. -/
structure MemCheckProtocol where
  extractor : Extractor := {}
  head : PacketHead := {}
  size : ℕ := 0
  deriving DecidableEq, Repr

namespace MemCheckProtocol

/-- `GetTriviallyCopyable`, for a struct of `n` bytes. -/
def getTriviallyCopyable (n : ℕ) (p : MemCheckProtocol) : Option (List UInt8) × MemCheckProtocol :=
  match p.extractor.read n with
  | none => (none, p)
  | some (b, x) => (some b, { p with extractor := x })

/-- The first half of `GetBinaryData`: the length, unless it is known from an earlier call. -/
def readSize (p : MemCheckProtocol) : Bool × MemCheckProtocol :=
  if p.size = 0 then
    match p.extractor.read 8 with
    | none => (false, p)
    | some (b, x) =>
      if val b > maxLegalElfSegmentSize then (false, { p with extractor := x, size := 0 })
      else (true, { p with extractor := x, size := val b })
  else (true, p)

def getBinaryData (p : MemCheckProtocol) : Option (List UInt8) × MemCheckProtocol :=
  match p.readSize with
  | (false, p) => (none, p)
  | (true, p) =>
    if p.extractor.size < p.size then (none, p)
    else
      match p.extractor.read p.size with
      | none => (none, p)
      | some (b, x) => (some b, { p with extractor := x, size := 0 })

variable (sizeOf : PacketType → ℕ)

/-- `GetPayLoad`. Without a file descriptor `GetKernelBinaryPacket` is as the other two. -/
def getPayLoad (p : MemCheckProtocol) : Option (List UInt8) × MemCheckProtocol :=
  match p.head.type with
  | .deviceSummary => p.getTriviallyCopyable (sizeOf .deviceSummary)
  | .kernelSummary => p.getTriviallyCopyable (sizeOf .kernelSummary)
  | .memoryRecord => p.getTriviallyCopyable (sizeOf .memoryRecord)
  | .kernelRecord => p.getBinaryData
  | .ipcRecord => p.getTriviallyCopyable (sizeOf .ipcRecord)
  | .peerAccessRecord => p.getTriviallyCopyable (sizeOf .peerAccessRecord)
  | .sanitizerRecord => p.getTriviallyCopyable (sizeOf .sanitizerRecord)
  | .memRegionPermission => p.getTriviallyCopyable (sizeOf .memRegionPermission)
  | .kernelBinary => p.getBinaryData
  | .logString => p.getBinaryData
  | .gmAddrOutOfBoundRecord => p.getTriviallyCopyable (sizeOf .gmAddrOutOfBoundRecord)
  | .ipcResponse | .kernelRecordResponse | .invalid => (none, p)

/-- The second half of `GetPacket`: the head is forgotten once the payload is there. -/
def takePacket (p : MemCheckProtocol) : Option RawPacket × MemCheckProtocol :=
  match p.getPayLoad sizeOf with
  | (none, q) => (none, q)
  | (some b, q) =>
    (some ⟨p.head.type, p.head.orderId, b⟩, { q with head := { q.head with type := .invalid } })

/-- `GetPacket`; `none` is the packet of type `INVALID`. -/
def getPacket (p : MemCheckProtocol) : Option RawPacket × MemCheckProtocol :=
  if p.head.type = .invalid then
    match p.extractor.read headSize with
    | none => (none, p)
    | some (b, x) => takePacket sizeOf { p with extractor := x, head := headOf b }
  else takePacket sizeOf p

def feed (p : MemCheckProtocol) (msg : List UInt8) : MemCheckProtocol :=
  if msg.length ≠ 0 then { p with extractor := p.extractor.feed msg } else p

/-- The loop of `msgSplitFunc`, for at most so many packets. -/
def drainFor : ℕ → MemCheckProtocol → List RawPacket × MemCheckProtocol
  | 0, p => ([], p)
  | fuel + 1, p =>
    match p.getPacket sizeOf with
    | (none, q) => ([], q)
    | (some packet, q) => (packet :: (drainFor fuel q).1, (drainFor fuel q).2)

/-- The bytes to use, with one more step for a head that is already taken. -/
def work (p : MemCheckProtocol) : ℕ :=
  p.extractor.size + if p.head.type = .invalid then 0 else 1

/-- The loop of `msgSplitFunc`: `GetPacket` until it returns `INVALID`. -/
def drain (p : MemCheckProtocol) : List RawPacket × MemCheckProtocol :=
  drainFor sizeOf (p.work + 1) p

/-- `msgSplitFunc` on one message. -/
def receive (p : MemCheckProtocol) (msg : List UInt8) : List RawPacket × MemCheckProtocol :=
  (p.feed msg).drain sizeOf

/-- The packets returned for one message after the other, and the decoder after the last. -/
def receiveAll : MemCheckProtocol → List (List UInt8) → List RawPacket × MemCheckProtocol
  | p, [] => ([], p)
  | p, msg :: msgs =>
    ((p.receive sizeOf msg).1 ++ (receiveAll (p.receive sizeOf msg).2 msgs).1,
      (receiveAll (p.receive sizeOf msg).2 msgs).2)

end MemCheckProtocol

/-! ### The encoder -/

/-- `Serialize` of a `PacketHead`. -/
def headBytes (h : PacketHead) : List UInt8 :=
  bytesOf 4 (PacketType.code h.type) ++ bytesOf 4 h.reserved ++ bytesOf 8 h.orderId

def isBinaryPacket (t : PacketType) : Bool :=
  t == .kernelBinary || t == .logString || t == .kernelRecord

/-- What the hooks write for a packet: the head with its order id, for a binary its length, and
the payload. -/
def serialize (q : RawPacket) : List UInt8 :=
  headBytes { type := q.type, orderId := q.orderId } ++
    ((if isBinaryPacket q.type then bytesOf 8 q.payload.length else []) ++ q.payload)

end MsSanitizer.Protocol
