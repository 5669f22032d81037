import MsSanitizer.Protocol

/-!
# What the packet protocol decodes

The decoder is compared with the plain reading of a string of bytes: what stands at its front.
Wherever the decoder stopped, the bytes it has taken off for the packet at hand and the bytes
still unread make up one string, its `rest`, and a call of `GetPacket` does to the decoder what
the plain reading does to the rest.
-/

namespace MsSanitizer.Protocol

open Packets ByteWords

/-! ### What stands at the front of a string of bytes -/

/-- How the payload of a type is laid out. -/
inductive PayloadKind
  | fixed (n : ℕ)
  | binary
  /-- Known to `IsKnownPacketType`, unknown to `GetPayLoad`. -/
  | unparsed
  | unknown
  deriving DecidableEq, Repr

inductive Front
  | incomplete
  /-- A packet that takes `n` bytes. -/
  | packet (q : RawPacket) (n : ℕ)
  | unknown
  | unparsed
  | illegalLength
  deriving DecidableEq, Repr

section
variable (sizeOf : PacketType → ℕ)

def payloadKind : PacketType → PayloadKind
  | .kernelBinary | .logString | .kernelRecord => .binary
  | .ipcResponse | .kernelRecordResponse => .unparsed
  | .invalid => .unknown
  | t => .fixed (sizeOf t)

def frontBody (h : PacketHead) (body : List UInt8) : Front :=
  match payloadKind sizeOf h.type with
  | .unknown => .unknown
  | .unparsed => .unparsed
  | .fixed n =>
    if body.length < n then .incomplete
    else .packet ⟨h.type, h.orderId, body.take n⟩ (headSize + n)
  | .binary =>
    if body.length < 8 then .incomplete
    else if val (body.take 8) > maxLegalElfSegmentSize then .illegalLength
    else if body.length < 8 + val (body.take 8) then .incomplete
    else .packet ⟨h.type, h.orderId, (body.drop 8).take (val (body.take 8))⟩
      (headSize + (8 + val (body.take 8)))

def front (s : List UInt8) : Front :=
  if s.length < headSize then .incomplete
  else frontBody sizeOf (headOf (s.take headSize)) (s.drop headSize)

end

lemma payloadKind_unknown {sizeOf : PacketType → ℕ} {t : PacketType}
    (h : payloadKind sizeOf t = .unknown) : t = .invalid := by
  cases t <;> cases h
  rfl

lemma frontBody_unknown {sizeOf : PacketType → ℕ} {h : PacketHead} {body : List UInt8}
    (hf : frontBody sizeOf h body = .unknown) : h.type = .invalid := by
  unfold frontBody at hf
  cases hk : payloadKind sizeOf h.type with
  | unknown => exact payloadKind_unknown hk
  | unparsed => rw [hk] at hf; cases hf
  | fixed n => rw [hk] at hf; dsimp only at hf; split_ifs at hf
  | binary => rw [hk] at hf; dsimp only at hf; split_ifs at hf

/-! ### Heads -/

lemma code_lt (t : PacketType) : PacketType.code t < 256 ^ 4 := by
  cases t <;> simp [PacketType.code]

lemma typeOfCode_code (t : PacketType) : typeOfCode (PacketType.code t) = t := by
  cases t <;> decide

lemma code_typeOfCode {code : ℕ} (h : typeOfCode code ≠ .invalid) :
    PacketType.code (typeOfCode code) = code := by
  unfold typeOfCode at h ⊢
  cases hf : knownPacketTypes.find? fun t => PacketType.code t == code with
  | none => rw [hf] at h; exact absurd rfl h
  | some t => simpa using List.find?_some hf

@[simp] lemma length_headBytes (h : PacketHead) : (headBytes h).length = headSize := by
  simp [headBytes, headSize]

lemma headBytes_headOf {b : List UInt8} (hlen : b.length = headSize)
    (ht : (headOf b).type ≠ .invalid) : headBytes (headOf b) = b := by
  have hl : b.length = 16 := hlen
  have h1 : bytesOf 4 (val (b.take 4)) = b.take 4 := by
    have := bytesOf_val (b.take 4)
    rwa [List.length_take, hl] at this
  have h2 : bytesOf 4 (val ((b.drop 4).take 4)) = (b.drop 4).take 4 := by
    have := bytesOf_val ((b.drop 4).take 4)
    rwa [List.length_take, List.length_drop, hl] at this
  have h3 : bytesOf 8 (val ((b.drop 8).take 8)) = (b.drop 8).take 8 := by
    have := bytesOf_val ((b.drop 8).take 8)
    rwa [List.length_take, List.length_drop, hl] at this
  have htail : (b.drop 8).take 8 = b.drop 8 := List.take_of_length_le (by simp [hl])
  unfold headBytes
  rw [show PacketType.code (headOf b).type = val (b.take 4) from code_typeOfCode ht]
  unfold headOf
  dsimp only
  rw [h1, h2, h3, htail, show b.drop 8 = (b.drop 4).drop 4 by simp, List.append_assoc,
    List.take_append_drop, List.take_append_drop]

lemma headOf_headBytes {h : PacketHead} (hr : h.reserved < 256 ^ 4) (ho : h.orderId < 256 ^ 8) :
    headOf (headBytes h) = h := by
  have ht := val_bytesOf (code_lt h.type)
  have hr' := val_bytesOf hr
  have ho' := val_bytesOf ho
  have e1 : (headBytes h).take 4 = bytesOf 4 (PacketType.code h.type) := by
    unfold headBytes
    rw [List.append_assoc, List.take_left' (length_bytesOf 4 _)]
  have e2 : (headBytes h).drop 4 = bytesOf 4 h.reserved ++ bytesOf 8 h.orderId := by
    unfold headBytes
    rw [List.append_assoc, List.drop_left' (length_bytesOf 4 _)]
  have e3 : (headBytes h).drop 8 = bytesOf 8 h.orderId := by
    unfold headBytes
    rw [List.drop_left' (by simp)]
  unfold headOf
  rw [e1, e2, e3, List.take_left' (length_bytesOf 4 _),
    List.take_of_length_le (by simp : (bytesOf 8 h.orderId).length ≤ 8), ht, hr', ho',
    typeOfCode_code]

lemma headOf_bounds (b : List UInt8) :
    (headOf b).reserved < 256 ^ 4 ∧ (headOf b).orderId < 256 ^ 8 := by
  constructor
  · have h := val_lt ((b.drop 4).take 4)
    exact lt_of_lt_of_le h (Nat.pow_le_pow_right (by norm_num) (List.length_take_le _ _))
  · have h := val_lt ((b.drop 8).take 8)
    exact lt_of_lt_of_le h (Nat.pow_le_pow_right (by norm_num) (List.length_take_le _ _))

/-! ### The extractor holds the bytes not yet used -/

namespace Extractor

def unread (x : Extractor) : List UInt8 := x.bytes.drop x.offset

/-- Used bytes are in the buffer, and not many of them. -/
structure Wf (x : Extractor) : Prop where
  le_length : x.offset ≤ x.bytes.length
  le_threshold : x.offset ≤ bytesDropThreshold

lemma wf_empty : Wf {} := ⟨le_rfl, Nat.zero_le _⟩

variable {x : Extractor}

lemma size_eq (x : Extractor) : x.size = x.unread.length := by
  simp [size, unread]

lemma read_none {n : ℕ} (hx : x.Wf) (h : x.unread.length < n) : x.read n = none := by
  have hle := hx.le_length
  unfold read
  rw [if_pos]
  simp only [unread, List.length_drop] at h
  omega

/-- **A read** takes the first unread bytes, whichever way the buffer is kept. -/
lemma read_some {n : ℕ} (hx : x.Wf) (h : n ≤ x.unread.length) :
    ∃ y, x.read n = some (x.unread.take n, y) ∧ y.Wf ∧ y.unread = x.unread.drop n := by
  have hle := hx.le_length
  have hlen : x.unread.length = x.bytes.length - x.offset := by simp [unread]
  unfold read
  rw [if_neg (by omega)]
  by_cases hall : x.offset = 0 ∧ n = x.bytes.length
  · rw [if_pos hall]
    have hun : x.unread = x.bytes := by simp [unread, hall.1]
    refine ⟨{}, ?_, wf_empty, ?_⟩
    · rw [hun, hall.2, List.take_length]
    · rw [hun, hall.2, List.drop_length]
      rfl
  · rw [if_neg hall]
    refine ⟨_, rfl, ?_, ?_⟩
    · split_ifs with hd
      · exact ⟨Nat.zero_le _, Nat.zero_le _⟩
      · exact ⟨by dsimp only; omega, by simpa using hd⟩
    · split_ifs with hd
      · simp only [unread, dropUsedBytes, List.drop_drop]
        rw [Nat.min_eq_left (by omega), Nat.add_zero]
      · simp only [unread, List.drop_drop]

lemma read_keeps {n : ℕ} {b : List UInt8} {y : Extractor} (hx : x.Wf)
    (h : x.read n = some (b, y)) :
    y.Wf ∧ n ≤ x.unread.length ∧ y.unread.length + n = x.unread.length := by
  by_cases hn : n ≤ x.unread.length
  · obtain ⟨z, hread, hz, hun⟩ := read_some hx hn
    rw [h] at hread
    cases hread
    refine ⟨hz, hn, ?_⟩
    rw [hun, List.length_drop]
    omega
  · rw [read_none hx (by omega)] at h
    cases h

lemma feed_room {msg : List UInt8} (hx : x.Wf)
    (h : x.unread.length + bytesDropThreshold + msg.length < maxStreamLen) :
    (x.feed msg).Wf ∧ (x.feed msg).unread = x.unread ++ msg := by
  have hle := hx.le_length
  have hth := hx.le_threshold
  have hlen : x.unread.length = x.bytes.length - x.offset := by simp [unread]
  unfold feed
  rw [if_pos (by omega)]
  refine ⟨⟨?_, hth⟩, ?_⟩
  · simp only [List.length_append]
    omega
  · simp only [unread]
    rw [List.drop_append_of_le_length hle]

lemma feed_wf (hx : x.Wf) (msg : List UInt8) : (x.feed msg).Wf := by
  have hle := hx.le_length
  unfold feed
  split_ifs
  · refine ⟨?_, hx.le_threshold⟩
    simp only [List.length_append]
    omega
  · exact hx

end Extractor

/-! ### The rest of a decoder -/

namespace MemCheckProtocol

/-- What is left of the packet at hand behind its head, and all that follows. -/
def body (p : MemCheckProtocol) : List UInt8 :=
  (if p.size = 0 then [] else bytesOf 8 p.size) ++ p.extractor.unread

/-- The bytes from the beginning of the packet at hand on. -/
def rest (p : MemCheckProtocol) : List UInt8 :=
  if p.head.type = .invalid then p.extractor.unread else headBytes p.head ++ p.body

structure Wf (p : MemCheckProtocol) : Prop where
  extractor : p.extractor.Wf
  reserved : p.head.reserved < 256 ^ 4
  orderId : p.head.orderId < 256 ^ 8
  size_le : p.size ≤ maxLegalElfSegmentSize
  binary : p.size ≠ 0 → isBinaryPacket p.head.type = true

lemma wf_empty : Wf {} where
  extractor := Extractor.wf_empty
  reserved := by norm_num
  orderId := by norm_num
  size_le := Nat.zero_le _
  binary h := absurd rfl h

variable {p : MemCheckProtocol} {sizeOf : PacketType → ℕ}

lemma Wf.size_eq_zero (hp : p.Wf) (h : isBinaryPacket p.head.type = false) : p.size = 0 := by
  by_contra hne
  have := hp.binary hne
  rw [h] at this
  cases this

lemma body_of_zero (h : p.size = 0) : p.body = p.extractor.unread := by
  simp [body, h]

/-- The outcome of a call that reads the payload of a packet: `none` leaves the packet as it
is, `some` takes so many bytes off behind the head. -/
def Takes (p : MemCheckProtocol) (r : Option (List UInt8) × MemCheckProtocol)
    (payload : Option (List UInt8)) (n : ℕ) : Prop :=
  r.1 = payload ∧ r.2.Wf ∧ r.2.head = p.head ∧ r.2.body = p.body.drop n ∧
    (payload.isSome → r.2.size = 0)

lemma getTriviallyCopyable_none {n : ℕ} (hp : p.Wf) (h0 : p.size = 0) (h : p.body.length < n) :
    p.Takes (p.getTriviallyCopyable n) none 0 := by
  rw [body_of_zero h0] at h
  unfold getTriviallyCopyable
  rw [Extractor.read_none hp.extractor h]
  exact ⟨rfl, hp, rfl, rfl, fun hs => by cases hs⟩

lemma getTriviallyCopyable_some {n : ℕ} (hp : p.Wf) (h0 : p.size = 0) (h : n ≤ p.body.length) :
    p.Takes (p.getTriviallyCopyable n) (some (p.body.take n)) n := by
  rw [body_of_zero h0] at h
  obtain ⟨y, hread, hy, hun⟩ := Extractor.read_some hp.extractor h
  unfold getTriviallyCopyable
  rw [hread]
  refine ⟨by rw [body_of_zero h0], ⟨hy, hp.reserved, hp.orderId, hp.size_le, hp.binary⟩, rfl, ?_,
    fun _ => h0⟩
  rw [body_of_zero h0, ← hun]
  exact body_of_zero (p := { p with extractor := y }) h0

/-- The length of a payload, if eight bytes are there for it. -/
lemma readSize_spec (hp : p.Wf) (hb : isBinaryPacket p.head.type = true) :
    (p.body.length < 8 → p.readSize = (false, p)) ∧
    (8 ≤ p.body.length → val (p.body.take 8) ≤ maxLegalElfSegmentSize →
      ∃ q, p.readSize = (true, q) ∧ q.Wf ∧ q.head = p.head ∧ q.size = val (p.body.take 8) ∧
        q.extractor.unread = p.body.drop 8) := by
  by_cases h0 : p.size = 0
  · have hbody := body_of_zero h0
    unfold readSize
    rw [if_pos h0, hbody]
    constructor
    · intro hlt
      rw [Extractor.read_none hp.extractor hlt]
    · intro hle hval
      obtain ⟨y, hread, hy, hun⟩ := Extractor.read_some hp.extractor hle
      rw [hread]
      refine ⟨_, if_neg (by omega), ?_, rfl, rfl, hun⟩
      exact ⟨hy, hp.reserved, hp.orderId, hval, fun _ => hb⟩
  · have hbody : p.body = bytesOf 8 p.size ++ p.extractor.unread := by simp [body, h0]
    have hlen : 8 ≤ p.body.length := by rw [hbody]; simp
    have hsz : val (bytesOf 8 p.size) = p.size := by
      refine val_bytesOf (lt_of_le_of_lt hp.size_le ?_)
      norm_num [maxLegalElfSegmentSize]
    unfold readSize
    rw [if_neg h0]
    refine ⟨fun hlt => by omega, fun _ _ => ⟨p, rfl, hp, rfl, ?_, ?_⟩⟩
    · rw [hbody, List.take_left' (length_bytesOf 8 _), hsz]
    · rw [hbody, List.drop_left' (length_bytesOf 8 _)]

lemma getBinaryData_short (hp : p.Wf) (hb : isBinaryPacket p.head.type = true)
    (h : p.body.length < 8) : p.Takes p.getBinaryData none 0 := by
  unfold getBinaryData
  rw [(readSize_spec hp hb).1 h]
  exact ⟨rfl, hp, rfl, rfl, fun hs => by cases hs⟩

lemma getBinaryData_none (hp : p.Wf) (hb : isBinaryPacket p.head.type = true)
    (h8 : 8 ≤ p.body.length) (hval : val (p.body.take 8) ≤ maxLegalElfSegmentSize)
    (h : p.body.length < 8 + val (p.body.take 8)) : p.Takes p.getBinaryData none 0 := by
  obtain ⟨q, hq, hwf, hhead, hsize, hun⟩ := (readSize_spec hp hb).2 h8 hval
  have hlt : q.extractor.size < q.size := by
    rw [Extractor.size_eq, hun, hsize, List.length_drop]
    omega
  have hbody : q.body = p.body := by
    have hne : q.size ≠ 0 := by omega
    have h8' := bytesOf_val (p.body.take 8)
    rw [List.length_take, Nat.min_eq_left h8] at h8'
    simp only [body, if_neg hne]
    rw [hsize, hun, h8']
    exact List.take_append_drop 8 _
  unfold getBinaryData
  rw [hq]
  simp only [if_pos hlt]
  exact ⟨rfl, hwf, hhead, hbody, fun hs => by cases hs⟩

lemma getBinaryData_some (hp : p.Wf) (hb : isBinaryPacket p.head.type = true)
    (h8 : 8 ≤ p.body.length) (hval : val (p.body.take 8) ≤ maxLegalElfSegmentSize)
    (h : 8 + val (p.body.take 8) ≤ p.body.length) :
    p.Takes p.getBinaryData (some ((p.body.drop 8).take (val (p.body.take 8))))
      (8 + val (p.body.take 8)) := by
  obtain ⟨q, hq, hwf, hhead, hsize, hun⟩ := (readSize_spec hp hb).2 h8 hval
  have hle : q.size ≤ q.extractor.unread.length := by
    rw [hun, hsize, List.length_drop]
    omega
  obtain ⟨y, hread, hy, hun'⟩ := Extractor.read_some hwf.extractor hle
  unfold getBinaryData
  rw [hq]
  have hlt : ¬ q.extractor.size < q.size := by rw [Extractor.size_eq]; omega
  simp only [if_neg hlt, hread]
  refine ⟨by rw [hun, hsize], ?_, hhead, ?_, fun _ => rfl⟩
  · exact ⟨hy, hwf.reserved, hwf.orderId, Nat.zero_le _, fun hne => absurd rfl hne⟩
  · rw [body_of_zero rfl, hun', hun, hsize, List.drop_drop]

/-- What a read of the payload does, by what stands behind the head. -/
lemma getPayLoad_incomplete (hp : p.Wf) (h : frontBody sizeOf p.head p.body = .incomplete) :
    p.Takes (p.getPayLoad sizeOf) none 0 := by
  unfold frontBody at h
  cases hk : payloadKind sizeOf p.head.type with
  | unknown => rw [hk] at h; cases h
  | unparsed => rw [hk] at h; cases h
  | fixed n =>
    rw [hk] at h
    dsimp only at h
    split_ifs at h with hlt
    have hg : p.getPayLoad sizeOf = p.getTriviallyCopyable n ∧
        isBinaryPacket p.head.type = false := by
      unfold getPayLoad
      cases ht : p.head.type <;> rw [ht] at hk <;> cases hk <;> exact ⟨rfl, rfl⟩
    rw [hg.1]
    exact getTriviallyCopyable_none hp (hp.size_eq_zero hg.2) hlt
  | binary =>
    rw [hk] at h
    dsimp only at h
    have hg : p.getPayLoad sizeOf = p.getBinaryData ∧ isBinaryPacket p.head.type = true := by
      unfold getPayLoad
      cases ht : p.head.type <;> rw [ht] at hk <;> cases hk <;> exact ⟨rfl, rfl⟩
    rw [hg.1]
    split_ifs at h with h8 hval hlen
    · exact getBinaryData_short hp hg.2 h8
    · exact getBinaryData_none hp hg.2 (by omega) (by omega) hlen

lemma getPayLoad_packet {raw : RawPacket} {n : ℕ} (hp : p.Wf)
    (h : frontBody sizeOf p.head p.body = .packet raw n) :
    p.head.type = raw.type ∧ p.head.orderId = raw.orderId ∧ headSize ≤ n ∧
      p.Takes (p.getPayLoad sizeOf) (some raw.payload) (n - headSize) := by
  unfold frontBody at h
  cases hk : payloadKind sizeOf p.head.type with
  | unknown => rw [hk] at h; cases h
  | unparsed => rw [hk] at h; cases h
  | fixed m =>
    rw [hk] at h
    dsimp only at h
    split_ifs at h with hlt
    have hg : p.getPayLoad sizeOf = p.getTriviallyCopyable m ∧
        isBinaryPacket p.head.type = false := by
      unfold getPayLoad
      cases ht : p.head.type <;> rw [ht] at hk <;> cases hk <;> exact ⟨rfl, rfl⟩
    injection h with hraw hn
    subst hraw hn
    refine ⟨rfl, rfl, by omega, ?_⟩
    rw [hg.1, Nat.add_sub_cancel_left]
    exact getTriviallyCopyable_some hp (hp.size_eq_zero hg.2) (by omega)
  | binary =>
    rw [hk] at h
    dsimp only at h
    have hg : p.getPayLoad sizeOf = p.getBinaryData ∧ isBinaryPacket p.head.type = true := by
      unfold getPayLoad
      cases ht : p.head.type <;> rw [ht] at hk <;> cases hk <;> exact ⟨rfl, rfl⟩
    split_ifs at h with h8 hval hlen
    injection h with hraw hn
    subst hraw hn
    refine ⟨rfl, rfl, by omega, ?_⟩
    rw [hg.1, Nat.add_sub_cancel_left]
    exact getBinaryData_some hp hg.2 (by omega) (by omega) (by omega)

/-! ### One call of `GetPacket` -/

/-- The decoder with the head of the packet at hand taken off. -/
lemma getPacket_head (sizeOf : PacketType → ℕ) (hp : p.Wf) (h : headSize ≤ p.rest.length) :
    ∃ q : MemCheckProtocol, p.getPacket sizeOf = q.takePacket sizeOf ∧ q.Wf ∧
      q.head = headOf (p.rest.take headSize) ∧ q.body = p.rest.drop headSize := by
  unfold getPacket
  by_cases ht : p.head.type = .invalid
  · have hrest : p.rest = p.extractor.unread := by simp [rest, ht]
    have h0 : p.size = 0 := hp.size_eq_zero (by rw [ht]; rfl)
    rw [hrest] at h
    obtain ⟨y, hread, hy, hun⟩ := Extractor.read_some hp.extractor h
    rw [if_pos ht, hread, hrest]
    refine ⟨_, rfl, ?_, rfl, ?_⟩
    · obtain ⟨hr, ho⟩ := headOf_bounds (p.extractor.unread.take headSize)
      exact ⟨hy, hr, ho, hp.size_le, fun hne => absurd h0 hne⟩
    · rw [← hun]
      exact body_of_zero (p := { p with extractor := y, head := _ }) h0
  · have hrest : p.rest = headBytes p.head ++ p.body := by simp [rest, ht]
    rw [if_neg ht, hrest, List.take_left' (length_headBytes _),
      List.drop_left' (length_headBytes _), headOf_headBytes hp.reserved hp.orderId]
    exact ⟨p, rfl, hp, rfl, rfl⟩

/-- With a packet at the front of its rest the decoder returns it. -/
lemma getPacket_packet {raw : RawPacket} {n : ℕ} (hp : p.Wf)
    (h : front sizeOf p.rest = .packet raw n) :
    ∃ q, p.getPacket sizeOf = (some raw, q) ∧ q.Wf ∧ q.head.type = .invalid ∧
      q.rest = p.rest.drop n := by
  unfold front at h
  split_ifs at h with hlen
  obtain ⟨q, hq, hwf, hhead, hbody⟩ := getPacket_head sizeOf hp (by omega)
  rw [← hhead, ← hbody] at h
  obtain ⟨ht, ho, hn, hres, hwf', hhead', hbody', hsize⟩ := getPayLoad_packet hwf h
  rw [hq]
  unfold takePacket
  rcases hgl : q.getPayLoad sizeOf with ⟨_ | b, r⟩
  · rw [hgl] at hres
    cases hres
  · rw [hgl] at hres hwf' hhead' hbody' hsize
    dsimp only at hres hwf' hhead' hbody' hsize ⊢
    cases hres
    have h0 := hsize rfl
    refine ⟨_, by rw [ht, ho], ?_, rfl, ?_⟩
    · exact ⟨hwf'.extractor, hwf'.reserved, hwf'.orderId, hwf'.size_le, fun hne => absurd h0 hne⟩
    · rw [show p.rest.drop n = (p.rest.drop headSize).drop (n - headSize) by
        rw [List.drop_drop]; congr 1; omega, ← hbody, ← hbody', body_of_zero h0]
      simp [rest]

/-- With less than a packet at the front of its rest the decoder waits, and its rest stays. -/
lemma getPacket_incomplete (hp : p.Wf) (h : front sizeOf p.rest = .incomplete) :
    ∃ q, p.getPacket sizeOf = (none, q) ∧ q.Wf ∧ q.rest = p.rest := by
  unfold front at h
  by_cases hlen : p.rest.length < headSize
  · have ht : p.head.type = .invalid := by
      by_contra hne
      simp only [rest, if_neg hne, List.length_append, length_headBytes] at hlen
      omega
    have hrest : p.rest = p.extractor.unread := by simp [rest, ht]
    rw [hrest] at hlen
    unfold getPacket
    rw [if_pos ht, Extractor.read_none hp.extractor hlen]
    exact ⟨p, rfl, hp, rfl⟩
  · rw [if_neg hlen] at h
    obtain ⟨q, hq, hwf, hhead, hbody⟩ := getPacket_head sizeOf hp (by omega)
    rw [← hhead, ← hbody] at h
    obtain ⟨hres, hwf', hhead', hbody', -⟩ := getPayLoad_incomplete hwf h
    have hne : q.head.type ≠ .invalid := by
      intro he
      unfold frontBody at h
      rw [he] at h
      cases h
    rw [hq]
    unfold takePacket
    rcases hgl : q.getPayLoad sizeOf with ⟨_ | b, r⟩
    · rw [hgl] at hwf' hhead' hbody'
      dsimp only at hwf' hhead' hbody' ⊢
      refine ⟨r, rfl, hwf', ?_⟩
      have hrr : r.rest = headBytes q.head ++ q.body := by
        rw [rest, hhead', if_neg hne, hbody', List.drop_zero]
      have hhb : headBytes q.head = p.rest.take headSize := by
        rw [hhead]
        refine headBytes_headOf ?_ (hhead ▸ hne)
        rw [List.length_take]
        omega
      rw [hrr, hhb, hbody, List.take_append_drop]
    · rw [hgl] at hres
      cases hres

/-- A head of unknown type is dropped, and nothing is returned. -/
lemma getPacket_unknown (hp : p.Wf) (h : front sizeOf p.rest = .unknown) :
    ∃ q, p.getPacket sizeOf = (none, q) ∧ q.Wf ∧ q.rest = p.rest.drop headSize := by
  unfold front at h
  split_ifs at h with hlen
  obtain ⟨q, hq, hwf, hhead, hbody⟩ := getPacket_head sizeOf hp (by omega)
  rw [← hhead, ← hbody] at h
  have hinv : q.head.type = .invalid := frontBody_unknown h
  have h0 : q.size = 0 := hwf.size_eq_zero (by rw [hinv]; rfl)
  rw [hq]
  unfold takePacket getPayLoad
  rw [hinv]
  refine ⟨q, rfl, hwf, ?_⟩
  rw [rest, if_pos hinv, ← hbody, body_of_zero h0]

/-! ### The loop -/

/-- What a call may do to the decoder, whatever it finds: it does not gain work. -/
structure Keeps (p : MemCheckProtocol) (r : Option (List UInt8) × MemCheckProtocol) : Prop where
  wf : r.2.Wf
  head : r.2.head = p.head
  unread_le : r.2.extractor.unread.length ≤ p.extractor.unread.length
  size_eq : r.1.isSome → r.2.size = 0

lemma getTriviallyCopyable_keeps (n : ℕ) (hp : p.Wf)
    (hb : isBinaryPacket p.head.type = false) : p.Keeps (p.getTriviallyCopyable n) := by
  have h0 := hp.size_eq_zero hb
  unfold getTriviallyCopyable
  cases hread : p.extractor.read n with
  | none => exact ⟨hp, rfl, le_rfl, fun hs => by cases hs⟩
  | some by' =>
    rcases by' with ⟨b, y⟩
    obtain ⟨hy, _, hlen⟩ := Extractor.read_keeps hp.extractor hread
    refine ⟨⟨hy, hp.reserved, hp.orderId, hp.size_le, hp.binary⟩, rfl, ?_, fun _ => h0⟩
    dsimp only
    omega

lemma readSize_keeps (hp : p.Wf) (hb : isBinaryPacket p.head.type = true) :
    p.readSize.2.Wf ∧ p.readSize.2.head = p.head ∧
      p.readSize.2.extractor.unread.length ≤ p.extractor.unread.length := by
  unfold readSize
  by_cases h0 : p.size = 0
  · rw [if_pos h0]
    cases hread : p.extractor.read 8 with
    | none => exact ⟨hp, rfl, le_rfl⟩
    | some by' =>
      rcases by' with ⟨b, y⟩
      obtain ⟨hy, _, hlen⟩ := Extractor.read_keeps hp.extractor hread
      dsimp only
      split_ifs with hval
      · refine ⟨⟨hy, hp.reserved, hp.orderId, Nat.zero_le _, fun hne => absurd rfl hne⟩, rfl, ?_⟩
        dsimp only
        omega
      · refine ⟨⟨hy, hp.reserved, hp.orderId, by dsimp only; omega, fun _ => hb⟩, rfl, ?_⟩
        dsimp only
        omega
  · rw [if_neg h0]
    exact ⟨hp, rfl, le_rfl⟩

lemma getBinaryData_keeps (hp : p.Wf) (hb : isBinaryPacket p.head.type = true) :
    p.Keeps p.getBinaryData := by
  obtain ⟨hwf, hhead, hle⟩ := readSize_keeps hp hb
  unfold getBinaryData
  rcases hrs : p.readSize with ⟨_ | _, q⟩
  · rw [hrs] at hwf hhead hle
    exact ⟨hwf, hhead, hle, fun hs => by cases hs⟩
  · rw [hrs] at hwf hhead hle
    dsimp only at hwf hhead hle ⊢
    split_ifs with hlt
    · exact ⟨hwf, hhead, hle, fun hs => by cases hs⟩
    · cases hread : q.extractor.read q.size with
      | none => exact ⟨hwf, hhead, hle, fun hs => by cases hs⟩
      | some by' =>
        rcases by' with ⟨b, y⟩
        obtain ⟨hy, _, hlen⟩ := Extractor.read_keeps hwf.extractor hread
        refine ⟨⟨hy, hwf.reserved, hwf.orderId, Nat.zero_le _, fun hne => absurd rfl hne⟩, hhead,
          ?_, fun _ => rfl⟩
        dsimp only
        omega

lemma getPayLoad_keeps (sizeOf : PacketType → ℕ) (hp : p.Wf) : p.Keeps (p.getPayLoad sizeOf) := by
  have hfix := fun n hb => getTriviallyCopyable_keeps n hp hb
  have hbin := fun hb => getBinaryData_keeps hp hb
  have hnone : p.Keeps (none, p) := ⟨hp, rfl, le_rfl, fun hs => by cases hs⟩
  unfold getPayLoad
  cases ht : p.head.type with
  | kernelRecord => exact hbin (by rw [ht]; rfl)
  | kernelBinary => exact hbin (by rw [ht]; rfl)
  | logString => exact hbin (by rw [ht]; rfl)
  | ipcResponse => exact hnone
  | kernelRecordResponse => exact hnone
  | invalid => exact hnone
  | _ => exact hfix _ (by rw [ht]; rfl)

/-- A packet that is returned leaves a well formed decoder with less work. -/
lemma getPacket_work {raw : RawPacket} {q : MemCheckProtocol} (hp : p.Wf)
    (h : p.getPacket sizeOf = (some raw, q)) : q.Wf ∧ q.work < p.work := by
  have htake : ∀ {r : MemCheckProtocol}, r.Wf → r.takePacket sizeOf = (some raw, q) →
      q.Wf ∧ q.work ≤ r.extractor.unread.length := by
    intro r hr hq
    obtain ⟨hwf, hhead, hle, hsize⟩ := getPayLoad_keeps sizeOf hr
    unfold takePacket at hq
    rcases hgl : r.getPayLoad sizeOf with ⟨_ | b, t⟩
    · rw [hgl] at hq
      cases hq
    · rw [hgl] at hq hwf hhead hle hsize
      dsimp only at hq hwf hle hsize
      have h0 := hsize rfl
      cases hq
      refine ⟨⟨hwf.extractor, hwf.reserved, hwf.orderId, hwf.size_le, fun hne => absurd h0 hne⟩, ?_⟩
      simp only [work, Extractor.size_eq, if_true]
      omega
  unfold getPacket at h
  split_ifs at h with ht
  · cases hread : p.extractor.read headSize with
    | none => rw [hread] at h; cases h
    | some by' =>
      rcases by' with ⟨b, y⟩
      rw [hread] at h
      obtain ⟨hy, _, hlen⟩ := Extractor.read_keeps hp.extractor hread
      obtain ⟨hr, ho⟩ := headOf_bounds b
      have h0 : p.size = 0 := hp.size_eq_zero (by rw [ht]; rfl)
      obtain ⟨hwf, hle⟩ := htake (r := { p with extractor := y, head := headOf b })
        ⟨hy, hr, ho, hp.size_le, fun hne => absurd h0 hne⟩ h
      refine ⟨hwf, ?_⟩
      simp only [work, if_pos ht, Extractor.size_eq p.extractor] at hle ⊢
      simp only [headSize] at hlen
      omega
  · obtain ⟨hwf, hle⟩ := htake hp h
    refine ⟨hwf, ?_⟩
    have hpw : p.work = p.extractor.unread.length + 1 := by
      simp [work, ht, Extractor.size_eq]
    omega

lemma drainFor_eq (sizeOf : PacketType → ℕ) : ∀ (fuel : ℕ) {p : MemCheckProtocol}, p.Wf →
    p.work < fuel → drainFor sizeOf fuel p = p.drain sizeOf := by
  intro fuel
  induction fuel using Nat.strong_induction_on with
  | _ fuel ih =>
    intro p hp hlt
    obtain ⟨f, rfl⟩ : ∃ f, fuel = f + 1 := ⟨fuel - 1, by omega⟩
    rw [drain]
    unfold drainFor
    rcases hg : p.getPacket sizeOf with ⟨_ | raw, q⟩
    · rfl
    · obtain ⟨hq, hwork⟩ := getPacket_work hp hg
      dsimp only
      rw [ih f (by omega) hq (by omega)]
      rcases Nat.lt_or_ge p.work f with hlt' | hge
      · rw [ih p.work (by omega) hq hwork]
      · have : f = p.work := by omega
        rw [← this, ih f (by omega) hq (by omega)]

lemma drain_none {q : MemCheckProtocol} (h : p.getPacket sizeOf = (none, q)) :
    p.drain sizeOf = ([], q) := by
  unfold drain drainFor
  rw [h]

lemma drain_some {raw : RawPacket} {q : MemCheckProtocol} (hp : p.Wf)
    (h : p.getPacket sizeOf = (some raw, q)) :
    p.drain sizeOf = (raw :: (q.drain sizeOf).1, (q.drain sizeOf).2) := by
  obtain ⟨hq, hwork⟩ := getPacket_work hp h
  rw [drain]
  unfold drainFor
  rw [h]
  dsimp only
  rw [drainFor_eq sizeOf p.work hq hwork]

end MemCheckProtocol

/-! ### Prefixes of packets -/

section
variable (sizeOf : PacketType → ℕ)

/-- A string of bytes that is one packet: a well formed one, or a malformed one, of which there
is no more than the head or the head with an illegal length. -/
def IsPacket (w : List UInt8) : Prop :=
  (∃ q, front sizeOf w = .packet q w.length) ∨
    (w.length = headSize ∧ (front sizeOf w = .unknown ∨ front sizeOf w = .unparsed)) ∨
    (w.length = headSize + 8 ∧ front sizeOf w = .illegalLength)

/-- The string is the beginning of one packet and not all of it. -/
def ProperPrefix (s : List UInt8) : Prop := ∃ w, IsPacket sizeOf w ∧ s <+: w ∧ s ≠ w

end

variable {sizeOf : PacketType → ℕ}

/-- Behind a complete head, the front is that of the head with what follows it. -/
lemma front_of_head {s : List UInt8} (h : headSize ≤ s.length) :
    front sizeOf s = frontBody sizeOf (headOf (s.take headSize)) (s.drop headSize) := by
  unfold front
  rw [if_neg (by omega)]

lemma front_short {s : List UInt8} (h : s.length < headSize) : front sizeOf s = .incomplete := by
  unfold front
  rw [if_pos h]

lemma ProperPrefix.front {s : List UInt8} (h : ProperPrefix sizeOf s) :
    front sizeOf s = .incomplete := by
  obtain ⟨w, hw, ⟨t, rfl⟩, hne⟩ := h
  have ht : 0 < t.length := by
    rcases t with _ | ⟨a, t⟩
    · exact absurd (List.append_nil s).symm hne
    · simp
  by_cases hlen : s.length < headSize
  · exact front_short hlen
  have hwl : headSize ≤ (s ++ t).length := by rw [List.length_append]; omega
  have htake : (s ++ t).take headSize = s.take headSize :=
    List.take_append_of_le_length (by omega)
  have hdrop : (s ++ t).drop headSize = s.drop headSize ++ t :=
    List.drop_append_of_le_length (by omega)
  rw [front_of_head (by omega)]
  unfold IsPacket at hw
  rw [front_of_head hwl, htake, hdrop, List.length_append] at hw
  unfold frontBody at hw ⊢
  have hsl : (s.drop headSize).length = s.length - headSize := List.length_drop
  cases hk : payloadKind sizeOf (headOf (s.take headSize)).type with
  | unknown =>
    rw [hk] at hw
    rcases hw with ⟨q, hq⟩ | ⟨h16, -⟩ | ⟨-, hq⟩
    · cases hq
    · omega
    · cases hq
  | unparsed =>
    rw [hk] at hw
    rcases hw with ⟨q, hq⟩ | ⟨h16, -⟩ | ⟨-, hq⟩
    · cases hq
    · omega
    · cases hq
  | fixed n =>
    rw [hk] at hw
    dsimp only at hw ⊢
    rw [if_pos]
    rcases hw with ⟨q, hq⟩ | ⟨h16, -⟩ | ⟨-, hq⟩
    · split_ifs at hq
      injection hq with _ hn
      omega
    · omega
    · split_ifs at hq
  | binary =>
    rw [hk] at hw
    dsimp only at hw ⊢
    by_cases h8 : (s.drop headSize).length < 8
    · rw [if_pos h8]
    rw [if_neg h8]
    have hval : (s.drop headSize ++ t).take 8 = (s.drop headSize).take 8 :=
      List.take_append_of_le_length (by omega)
    rw [hval] at hw
    rcases hw with ⟨q, hq⟩ | ⟨h16, -⟩ | ⟨h24, -⟩
    · split_ifs at hq with h1 h2 h3
      injection hq with _ hn
      rw [if_neg h2, if_pos (by omega)]
    · omega
    · omega

def fill (s : List UInt8) (n : ℕ) : List UInt8 := s ++ List.replicate (n - s.length) 0

lemma length_fill {s : List UInt8} {n : ℕ} (h : s.length ≤ n) : (fill s n).length = n := by
  simp [fill]
  omega

lemma take_fill {s : List UInt8} {k : ℕ} (n : ℕ) (h : k ≤ s.length) :
    (fill s n).take k = s.take k := List.take_append_of_le_length h

lemma drop_fill {s : List UInt8} {k n : ℕ} (h : k ≤ s.length) (hn : s.length ≤ n) :
    (fill s n).drop k = fill (s.drop k) (n - k) := by
  unfold fill
  rw [List.drop_append_of_le_length h, List.length_drop]
  congr 2
  omega

lemma properPrefix_fill {s : List UInt8} {n : ℕ} (hlt : s.length < n)
    (h : IsPacket sizeOf (fill s n)) : ProperPrefix sizeOf s := by
  refine ⟨fill s n, h, List.prefix_append _ _, fun he => ?_⟩
  have := length_fill hlt.le
  rw [← he] at this
  omega

lemma ProperPrefix.of_fill {s : List UInt8} {n : ℕ} (h : ProperPrefix sizeOf (fill s n)) :
    ProperPrefix sizeOf s := by
  obtain ⟨w, hw, hpre, hne⟩ := h
  refine ⟨w, hw, (List.prefix_append _ _).trans hpre, fun he => ?_⟩
  subst he
  exact hne (hpre.eq_of_length_le (by simp [fill]))

/-- With the head there, zeros complete a packet of fixed size. -/
lemma properPrefix_fixed {s : List UInt8} {n : ℕ} (hlen : headSize ≤ s.length)
    (hk : payloadKind sizeOf (headOf (s.take headSize)).type = .fixed n)
    (hlt : s.length < headSize + n) : ProperPrefix sizeOf s := by
  refine properPrefix_fill hlt (Or.inl ?_)
  have hl := length_fill hlt.le
  rw [front_of_head (by omega), take_fill _ (by omega), hl]
  unfold frontBody
  rw [hk]
  dsimp only
  rw [if_neg (by rw [List.length_drop]; omega)]
  exact ⟨_, rfl⟩

/-- With the head and a legal length there, zeros complete a binary. -/
lemma properPrefix_binary {s : List UInt8} (hlen : headSize + 8 ≤ s.length)
    (hk : payloadKind sizeOf (headOf (s.take headSize)).type = .binary)
    (hval : ¬ val ((s.drop headSize).take 8) > maxLegalElfSegmentSize)
    (hlt : s.length < headSize + (8 + val ((s.drop headSize).take 8))) :
    ProperPrefix sizeOf s := by
  have hsl : (s.drop headSize).length = s.length - headSize := List.length_drop
  set m := val ((s.drop headSize).take 8) with hm
  refine properPrefix_fill hlt (Or.inl ?_)
  have hl := length_fill hlt.le
  have h8 : ((fill s (headSize + (8 + m))).drop headSize).take 8 = (s.drop headSize).take 8 := by
    rw [drop_fill (by omega) (by omega), take_fill _ (by omega)]
  rw [front_of_head (by omega), take_fill _ (by omega), hl]
  unfold frontBody
  rw [hk]
  dsimp only
  rw [h8, ← hm, if_neg (by rw [List.length_drop]; omega), if_neg hval,
    if_neg (by rw [List.length_drop]; omega)]
  exact ⟨_, rfl⟩

lemma properPrefix_of_head {s : List UInt8} (hlen : headSize ≤ s.length)
    (h : front sizeOf s = .incomplete) : ProperPrefix sizeOf s := by
  have hsl : (s.drop headSize).length = s.length - headSize := List.length_drop
  rw [front_of_head hlen] at h
  unfold frontBody at h
  cases hk : payloadKind sizeOf (headOf (s.take headSize)).type with
  | unknown => rw [hk] at h; cases h
  | unparsed => rw [hk] at h; cases h
  | fixed n =>
    rw [hk] at h
    dsimp only at h
    split_ifs at h with hlt
    exact properPrefix_fixed hlen hk (by omega)
  | binary =>
    rw [hk] at h
    dsimp only at h
    split_ifs at h with h8 hval hlt
    · -- the length is not there: fill it with zeros first
      have hl := length_fill (s := s) (n := headSize + 8) (by omega)
      have hk' : payloadKind sizeOf (headOf ((fill s (headSize + 8)).take headSize)).type =
          .binary := by rwa [take_fill _ hlen]
      by_cases hval : val (((fill s (headSize + 8)).drop headSize).take 8) > maxLegalElfSegmentSize
      · refine properPrefix_fill (n := headSize + 8) (by omega) (Or.inr (Or.inr ⟨hl, ?_⟩))
        rw [front_of_head (by omega)]
        unfold frontBody
        rw [hk']
        dsimp only
        rw [if_neg (by rw [List.length_drop]; omega), if_pos hval]
      · by_cases h0 : val (((fill s (headSize + 8)).drop headSize).take 8) = 0
        · refine properPrefix_fill (n := headSize + 8) (by omega) (Or.inl ?_)
          rw [front_of_head (by omega), hl]
          unfold frontBody
          rw [hk']
          dsimp only
          rw [if_neg (by rw [List.length_drop]; omega), if_neg hval,
            if_neg (by rw [List.length_drop]; omega), h0]
          exact ⟨_, rfl⟩
        · exact (properPrefix_binary (by omega) hk' hval (by omega)).of_fill
    · exact properPrefix_binary (by omega) hk hval (by omega)

/-- **The beginnings of packets** are the strings with nothing complete at the front. -/
lemma properPrefix_iff {s : List UInt8} :
    ProperPrefix sizeOf s ↔ front sizeOf s = .incomplete := by
  refine ⟨ProperPrefix.front, fun h => ?_⟩
  by_cases hlen : headSize ≤ s.length
  · exact properPrefix_of_head hlen h
  have hl := length_fill (s := s) (n := headSize) (by omega)
  by_cases hinc : front sizeOf (fill s headSize) = .incomplete
  · exact (properPrefix_of_head (by omega) hinc).of_fill
  refine properPrefix_fill (n := headSize) (by omega) ?_
  unfold IsPacket
  have hbody : ((fill s headSize).drop headSize).length = 0 := by rw [List.length_drop]; omega
  rw [front_of_head (by omega)] at hinc ⊢
  unfold frontBody at hinc ⊢
  cases hk : payloadKind sizeOf (headOf ((fill s headSize).take headSize)).type with
  | unknown => exact Or.inr (Or.inl ⟨hl, Or.inl rfl⟩)
  | unparsed => exact Or.inr (Or.inl ⟨hl, Or.inr rfl⟩)
  | fixed n =>
    rw [hk] at hinc
    dsimp only at hinc ⊢
    have hlt : ¬ ((fill s headSize).drop headSize).length < n :=
      fun hlt => hinc (by rw [if_pos hlt])
    rw [if_neg hlt, hl]
    have h0 : n = 0 := by omega
    subst h0
    exact Or.inl ⟨_, rfl⟩
  | binary =>
    rw [hk] at hinc
    dsimp only at hinc
    rw [if_pos (by omega)] at hinc
    exact absurd rfl hinc

/-! ### Runs on any input -/

section
variable (sizeOf : PacketType → ℕ)

/-- The bytes at hand can be decoded to the last packet: there is no type without a payload
parser, no illegal length, and no complete packet behind a head of unknown type. -/
inductive Clean : List UInt8 → Prop
  | incomplete {s} : front sizeOf s = .incomplete → Clean s
  | packet {s q n} : front sizeOf s = .packet q n → Clean (s.drop n) → Clean s
  | unknown {s} : front sizeOf s = .unknown → front sizeOf (s.drop headSize) = .incomplete →
      Clean s

/-- The string consists of the packets, of heads of unknown type between them, and of the
rest. -/
inductive Framed : List UInt8 → List RawPacket → List UInt8 → Prop
  | rest (s) : Framed s [] s
  | packet {s q n qs r} : front sizeOf s = .packet q n → Framed (s.drop n) qs r →
      Framed s (q :: qs) r
  | unknown {s qs r} : front sizeOf s = .unknown → Framed (s.drop headSize) qs r → Framed s qs r

/-- Before every drain the bytes at hand are clean. -/
def CleanRun : MemCheckProtocol → List (List UInt8) → Prop
  | _, [] => True
  | p, msg :: msgs => Clean sizeOf (p.feed msg).rest ∧ CleanRun (p.receive sizeOf msg).2 msgs

end

namespace MemCheckProtocol

variable {p : MemCheckProtocol}

lemma feed_wf (hp : p.Wf) (msg : List UInt8) : (p.feed msg).Wf := by
  unfold feed
  split_ifs
  · exact ⟨Extractor.feed_wf hp.extractor msg, hp.reserved, hp.orderId, hp.size_le, hp.binary⟩
  · exact hp

lemma drain_clean {s : List UInt8} (h : Clean sizeOf s) (hp : p.Wf) (hs : p.rest = s) :
    (p.drain sizeOf).2.Wf ∧ Framed sizeOf s (p.drain sizeOf).1 (p.drain sizeOf).2.rest ∧
      front sizeOf (p.drain sizeOf).2.rest = .incomplete := by
  induction h generalizing p with
  | @incomplete s hf =>
    subst hs
    obtain ⟨q, hq, hwf, hrest⟩ := getPacket_incomplete hp hf
    rw [drain_none hq]
    dsimp only
    rw [hrest]
    exact ⟨hwf, Framed.rest _, hf⟩
  | @packet s raw n hf _ ih =>
    subst hs
    obtain ⟨q, hq, hwf, _, hrest⟩ := getPacket_packet hp hf
    obtain ⟨hwf', hfr, hfin⟩ := ih hwf hrest
    rw [drain_some hp hq]
    exact ⟨hwf', Framed.packet hf hfr, hfin⟩
  | @unknown s hf hf' =>
    subst hs
    obtain ⟨q, hq, hwf, hrest⟩ := getPacket_unknown hp hf
    rw [drain_none hq]
    dsimp only
    rw [hrest]
    exact ⟨hwf, Framed.unknown hf (Framed.rest _), hf'⟩

lemma receiveAll_concat (sizeOf : PacketType → ℕ) (p : MemCheckProtocol)
    (msgs : List (List UInt8)) (msg : List UInt8) :
    (receiveAll sizeOf p (msgs ++ [msg])).2 =
      ((receiveAll sizeOf p msgs).2.receive sizeOf msg).2 := by
  induction msgs generalizing p with
  | nil => rfl
  | cons m msgs ih => exact ih _

/-- A clean run keeps the decoder well formed up to its last message. -/
lemma CleanRun.last {msgs : List (List UInt8)} {msg : List UInt8} (hp : p.Wf)
    (h : CleanRun sizeOf p (msgs ++ [msg])) :
    (receiveAll sizeOf p msgs).2.Wf ∧
      Clean sizeOf ((receiveAll sizeOf p msgs).2.feed msg).rest := by
  induction msgs generalizing p with
  | nil => exact ⟨hp, h.1⟩
  | cons m msgs ih => exact ih (drain_clean h.1 (feed_wf hp m) rfl).1 h.2

end MemCheckProtocol

open MemCheckProtocol in
/-- **The decoder is drained.** In a run in which the bytes at hand are clean before every
drain, each drain returns all packets of the bytes at hand, and what is left unread is the
beginning of one packet. -/
theorem drain_complete (sizeOf : PacketType → ℕ) (msgs : List (List UInt8)) (msg : List UInt8)
    (h : CleanRun sizeOf {} (msgs ++ [msg])) :
    Framed sizeOf ((receiveAll sizeOf {} msgs).2.feed msg).rest
        ((receiveAll sizeOf {} msgs).2.receive sizeOf msg).1
        (receiveAll sizeOf {} (msgs ++ [msg])).2.rest ∧
      ProperPrefix sizeOf (receiveAll sizeOf {} (msgs ++ [msg])).2.rest := by
  obtain ⟨hwf, hclean⟩ := CleanRun.last wf_empty h
  obtain ⟨_, hfr, hfin⟩ := drain_clean hclean (feed_wf hwf msg) rfl
  rw [receiveAll_concat]
  exact ⟨hfr, properPrefix_iff.2 hfin⟩

/-- A log string without text, the shortest packet. -/
def emptyLog (orderId : ℕ) : RawPacket := ⟨.logString, orderId, []⟩

open MemCheckProtocol in
/-- A packet cut in its head, a head of unknown type at the end of a message, another packet. -/
theorem drain_complete_pieces :
    CleanRun (fun _ => 16) {} [(serialize (emptyLog 1)).take 10,
        (serialize (emptyLog 1)).drop 10 ++ headBytes { type := .invalid, orderId := 2 },
        serialize (emptyLog 3)] ∧
      ProperPrefix (fun _ => 16) (receiveAll (fun _ => 16) {} [(serialize (emptyLog 1)).take 10,
        (serialize (emptyLog 1)).drop 10 ++ headBytes { type := .invalid, orderId := 2 },
        serialize (emptyLog 3)]).2.rest := by
  have h : CleanRun (fun _ => 16) {} ([(serialize (emptyLog 1)).take 10,
      (serialize (emptyLog 1)).drop 10 ++ headBytes { type := .invalid, orderId := 2 }] ++
        [serialize (emptyLog 3)]) := by
    refine ⟨.incomplete (by decide +kernel), ?_, ?_, trivial⟩
    · refine .packet (q := emptyLog 1) (n := 24) (by decide +kernel) (.unknown ?_ ?_)
      · decide +kernel
      · decide +kernel
    · exact .packet (q := emptyLog 3) (n := 24) (by decide +kernel)
        (.incomplete (by decide +kernel))
  exact ⟨h, (drain_complete _ _ _ h).2⟩

namespace MemCheckProtocol

/-- A type without a payload parser is never left again. -/
lemma receiveAll_unparsed (sizeOf : PacketType → ℕ) (msgs : List (List UInt8))
    {p : MemCheckProtocol} (h : p.head.type = .ipcResponse) :
    (receiveAll sizeOf p msgs).1 = [] := by
  induction msgs generalizing p with
  | nil => rfl
  | cons msg msgs ih =>
    have hfeed : (p.feed msg).head = p.head := by
      unfold feed
      split_ifs <;> rfl
    have hget : (p.feed msg).getPacket sizeOf = (none, p.feed msg) := by
      have ht : (p.feed msg).head.type = .ipcResponse := by rw [hfeed, h]
      unfold getPacket takePacket getPayLoad
      rw [ht, if_neg (by decide)]
    have hrec : p.receive sizeOf msg = ([], p.feed msg) := drain_none hget
    unfold receiveAll
    rw [hrec]
    exact ih (by rw [hfeed, h])

end MemCheckProtocol

open MemCheckProtocol in
/-- Behind the head of an answer of the server nothing is decoded any more, whatever is sent; a
head of unknown type leaves the packet behind it unread; and behind an illegal length the next
head is taken for a length. -/
theorem malformed_packet_blocks :
    (¬ ProperPrefix (fun _ => 16) (receiveAll (fun _ => 16) {}
        [headBytes { type := .ipcResponse, orderId := 1 } ++ serialize (emptyLog 2)]).2.rest) ∧
      (∀ msgs, (receiveAll (fun _ => 16) {}
        ((headBytes { type := .ipcResponse, orderId := 1 } ++ serialize (emptyLog 2)) ::
          msgs)).1 = []) ∧
      (¬ ProperPrefix (fun _ => 16) (receiveAll (fun _ => 16) {}
        [headBytes { type := .invalid, orderId := 1 } ++ serialize (emptyLog 2)]).2.rest) ∧
      (¬ ProperPrefix (fun _ => 16) (receiveAll (fun _ => 16) {}
        [headBytes { type := .logString, orderId := 1 } ++
          bytesOf 8 (maxLegalElfSegmentSize + 1) ++ serialize (emptyLog 2)]).2.rest) := by
  refine ⟨?_, fun msgs => ?_, ?_, ?_⟩
  · rw [properPrefix_iff]
    decide +kernel
  · unfold receiveAll
    have h1 : (receive (fun _ => 16) {} (headBytes { type := .ipcResponse, orderId := 1 } ++
        serialize (emptyLog 2))).1 = [] := by decide +kernel
    have h2 : (receive (fun _ => 16) {} (headBytes { type := .ipcResponse, orderId := 1 } ++
        serialize (emptyLog 2))).2.head.type = .ipcResponse := by decide +kernel
    rw [h1, receiveAll_unparsed _ _ h2]
    rfl
  · rw [properPrefix_iff]
    decide +kernel
  · rw [properPrefix_iff]
    decide +kernel

/-! ### Round trips -/

section
variable (sizeOf : PacketType → ℕ)

/-- A packet the hooks may send: its type has a payload parser, its payload has the size of the
struct or is a binary of legal length. -/
def Sendable (q : RawPacket) : Prop :=
  q.orderId < 2 ^ 64 ∧
    match payloadKind sizeOf q.type with
    | .fixed n => q.payload.length = n
    | .binary => q.payload.length ≤ maxLegalElfSegmentSize
    | .unparsed | .unknown => False

end

def stream (qs : List RawPacket) : List UInt8 := (qs.map serialize).flatten

@[simp] lemma stream_nil : stream [] = [] := rfl
@[simp] lemma stream_cons (q : RawPacket) (qs : List RawPacket) :
    stream (q :: qs) = serialize q ++ stream qs := rfl

/-- **One packet.** What the hooks write is read back, whatever follows. -/
lemma front_serialize {q : RawPacket} (hq : Sendable sizeOf q) (t : List UInt8) :
    front sizeOf (serialize q ++ t) = .packet q (serialize q).length := by
  obtain ⟨hid, hpay⟩ := hq
  have hhead : headOf (headBytes { type := q.type, orderId := q.orderId }) =
      { type := q.type, orderId := q.orderId } :=
    headOf_headBytes (by norm_num) (by simpa using hid)
  have hlen : (headBytes { type := q.type, orderId := q.orderId }).length = headSize :=
    length_headBytes _
  unfold serialize
  rw [List.append_assoc, front_of_head (by rw [List.length_append, hlen]; omega),
    List.take_left' hlen, List.drop_left' hlen, hhead, List.length_append, hlen]
  unfold frontBody
  dsimp only
  cases hk : payloadKind sizeOf q.type with
  | unknown => rw [hk] at hpay; exact hpay.elim
  | unparsed => rw [hk] at hpay; exact hpay.elim
  | fixed n =>
    rw [hk] at hpay
    dsimp only at hpay ⊢
    have hb : isBinaryPacket q.type = false := by
      cases ht : q.type <;> rw [ht] at hk <;> cases hk <;> rfl
    rw [hb]
    simp only [Bool.false_eq_true, if_false, List.nil_append, List.length_append]
    rw [if_neg (by omega), List.take_left' hpay, hpay]
  | binary =>
    rw [hk] at hpay
    dsimp only at hpay ⊢
    have hb : isBinaryPacket q.type = true := by
      cases ht : q.type <;> rw [ht] at hk <;> cases hk <;> rfl
    have hval : val (bytesOf 8 q.payload.length) = q.payload.length := by
      refine val_bytesOf (lt_of_le_of_lt hpay ?_)
      norm_num [maxLegalElfSegmentSize]
    simp only [hb, if_true, List.append_assoc]
    rw [List.take_left' (length_bytesOf 8 _), List.drop_left' (length_bytesOf 8 _), hval]
    simp only [List.length_append, length_bytesOf]
    rw [if_neg (by omega), if_neg (by omega), if_neg (by omega), List.take_left' rfl]

/-- At the front of a stream of packets cut anywhere there is the first packet, or a part of
it. -/
lemma front_stream {q : RawPacket} {s t u : List UInt8} (hq : Sendable sizeOf q)
    (h : s ++ t = serialize q ++ u) :
    (s.length < (serialize q).length ∧ front sizeOf s = .incomplete) ∨
    (front sizeOf s = .packet q (serialize q).length ∧
      s.drop (serialize q).length ++ t = u) := by
  by_cases hlen : s.length < (serialize q).length
  · refine Or.inl ⟨hlen, ?_⟩
    have hpre : s <+: serialize q := List.prefix_of_prefix_length_le (List.prefix_append s t)
      (h ▸ List.prefix_append _ u) hlen.le
    have hpack : IsPacket sizeOf (serialize q) := by
      have := front_serialize hq []
      rw [List.append_nil] at this
      exact Or.inl ⟨q, this⟩
    refine ProperPrefix.front ⟨_, hpack, hpre, fun he => ?_⟩
    rw [he] at hlen
    omega
  · obtain ⟨v, rfl⟩ : serialize q <+: s := List.prefix_of_prefix_length_le
      (h ▸ List.prefix_append _ u) (List.prefix_append s t) (by omega)
    refine Or.inr ⟨front_serialize hq v, ?_⟩
    rw [List.append_assoc] at h
    rw [List.drop_left' rfl]
    exact List.append_cancel_left h

namespace MemCheckProtocol

variable {p : MemCheckProtocol}

lemma drain_stream {qs : List RawPacket} {t : List UInt8} (hq : ∀ q ∈ qs, Sendable sizeOf q)
    (hp : p.Wf) (h : p.rest ++ t = stream qs) :
    ∃ left, qs = (p.drain sizeOf).1 ++ left ∧ (p.drain sizeOf).2.Wf ∧
      (p.drain sizeOf).2.rest ++ t = stream left ∧
      (∀ q ∈ left.head?, (p.drain sizeOf).2.rest.length < (serialize q).length) := by
  induction qs generalizing p with
  | nil =>
    have hrest : p.rest = [] := (List.append_eq_nil_iff.1 h).1
    have hinc : front sizeOf p.rest = .incomplete := by
      rw [hrest]
      exact front_short (by decide)
    obtain ⟨q, hq', hwf, hr⟩ := getPacket_incomplete hp hinc
    rw [drain_none hq']
    refine ⟨[], rfl, hwf, ?_, fun q hmem => by cases hmem⟩
    dsimp only
    rw [hr, h]
  | cons raw qs ih =>
    rw [stream_cons] at h
    rcases front_stream (hq raw (List.mem_cons_self ..)) h with ⟨hlt, hinc⟩ | ⟨hpk, hdrop⟩
    · obtain ⟨q, hq', hwf, hr⟩ := getPacket_incomplete hp hinc
      rw [drain_none hq']
      refine ⟨raw :: qs, rfl, hwf, ?_, fun q hmem => ?_⟩
      · dsimp only
        rw [hr, h, stream_cons]
      · cases hmem
        dsimp only
        rwa [hr]
    · obtain ⟨q, hq', hwf, _, hr⟩ := getPacket_packet hp hpk
      rw [drain_some hp hq']
      rw [← hr] at hdrop
      obtain ⟨left, hqs, hrest⟩ := ih (fun q hm => hq q (List.mem_cons_of_mem _ hm)) hwf hdrop
      refine ⟨left, ?_, hrest⟩
      dsimp only
      rw [List.cons_append, ← hqs]

lemma feed_rest {msg : List UInt8} (hp : p.Wf)
    (h : msg = [] ∨ p.rest.length + bytesDropThreshold + msg.length < maxStreamLen) :
    (p.feed msg).Wf ∧ (p.feed msg).rest = p.rest ++ msg := by
  refine ⟨feed_wf hp msg, ?_⟩
  unfold feed
  by_cases hm : msg.length ≠ 0
  · rw [if_pos hm]
    rcases h with rfl | hroom
    · exact absurd rfl hm
    have hle : p.extractor.unread.length ≤ p.rest.length := by
      unfold rest body
      split_ifs
      · exact le_rfl
      · simp
      · simp only [List.length_append]
        omega
    have hroom' : p.extractor.unread.length + bytesDropThreshold + msg.length < maxStreamLen := by
      omega
    obtain ⟨_, hun⟩ := Extractor.feed_room hp.extractor hroom'
    simp only [rest, body, hun]
    split_ifs <;> simp
  · rw [if_neg hm]
    have : msg = [] := List.length_eq_zero_iff.1 (by omega)
    simp [this]

/-- **All messages**: if there is room for each of them beside any one packet, the packets
returned and the packets still to come make up the packets sent. -/
lemma receiveAll_stream {qs : List RawPacket} {msgs : List (List UInt8)}
    (hq : ∀ q ∈ qs, Sendable sizeOf q) (hp : p.Wf) (h : p.rest ++ msgs.flatten = stream qs)
    (hshort : ∀ q ∈ qs.head?, p.rest.length < (serialize q).length)
    (hroom : ∀ msg ∈ msgs, ∀ q ∈ qs,
      (serialize q).length + bytesDropThreshold + msg.length ≤ maxStreamLen) :
    (receiveAll sizeOf p msgs).1 = qs ∧ (receiveAll sizeOf p msgs).2.rest = [] := by
  induction msgs generalizing p qs with
  | nil =>
    rcases qs with _ | ⟨q, qs⟩
    · exact ⟨rfl, (List.append_eq_nil_iff.1 h).1⟩
    · -- all bytes are there, so the first packet is not cut
      have hlt := hshort q rfl
      have hlen := congrArg List.length h
      simp only [List.flatten_nil, List.append_nil, stream_cons, List.length_append] at hlen
      omega
  | cons msg msgs ih =>
    have hfeed : msg = [] ∨ p.rest.length + bytesDropThreshold + msg.length < maxStreamLen := by
      rcases qs with _ | ⟨q, qs⟩
      · left
        have := (List.append_eq_nil_iff.1 h).2
        rw [List.flatten_cons, List.append_eq_nil_iff] at this
        exact this.1
      · right
        have hlt := hshort q rfl
        have := hroom msg (List.mem_cons_self ..) q (List.mem_cons_self ..)
        omega
    obtain ⟨hwf, hrest⟩ := feed_rest hp hfeed
    have hs : (p.feed msg).rest ++ msgs.flatten = stream qs := by
      rw [hrest, List.append_assoc, ← List.flatten_cons, h]
    obtain ⟨left, hqs, hwf', hs', hshort'⟩ := drain_stream hq hwf hs
    have hsub : ∀ q ∈ left, q ∈ qs := by
      intro q hm
      rw [hqs]
      exact List.mem_append_right _ hm
    obtain ⟨hout, hend⟩ := ih (fun q hm => hq q (hsub q hm)) hwf' hs' hshort'
      fun m hm q hq' => hroom m (List.mem_cons_of_mem _ hm) q (hsub q hq')
    refine ⟨?_, hend⟩
    unfold receiveAll receive
    dsimp only
    rw [hout, ← hqs]

end MemCheckProtocol

open MemCheckProtocol in
/-- **Round trip.** However the bytes of a sequence of packets are cut into messages, the
packets returned are those sent and nothing is left over, as long as each message leaves room
in the stream buffer for any one of the packets and for the bytes that are used but not yet
dropped. -/
theorem round_trip (sizeOf : PacketType → ℕ) (packets : List RawPacket)
    (msgs : List (List UInt8)) (hsend : ∀ q ∈ packets, Sendable sizeOf q)
    (hcut : msgs.flatten = stream packets)
    (hroom : ∀ msg ∈ msgs, ∀ q ∈ packets,
      (serialize q).length + bytesDropThreshold + msg.length ≤ maxStreamLen) :
    (receiveAll sizeOf {} msgs).1 = packets ∧ (receiveAll sizeOf {} msgs).2.rest = [] := by
  refine receiveAll_stream hsend wf_empty hcut (fun q _ => ?_) hroom
  show 0 < (serialize q).length
  unfold serialize
  rw [List.length_append, length_headBytes]
  exact Nat.lt_of_lt_of_le (by decide : 0 < headSize) (Nat.le_add_right _ _)

open MemCheckProtocol in
/-- A log string and a device summary, cut in the head, in the length and in the payload. -/
theorem round_trip_pieces :
    (receiveAll (fun _ => 16) {} [(stream [⟨.logString, 1, [65, 66]⟩,
        ⟨.deviceSummary, 2, List.replicate 16 7⟩]).take 5,
      ((stream [⟨.logString, 1, [65, 66]⟩,
        ⟨.deviceSummary, 2, List.replicate 16 7⟩]).drop 5).take 13,
      ((stream [⟨.logString, 1, [65, 66]⟩,
        ⟨.deviceSummary, 2, List.replicate 16 7⟩]).drop 18).take 30,
      (stream [⟨.logString, 1, [65, 66]⟩,
        ⟨.deviceSummary, 2, List.replicate 16 7⟩]).drop 48]).1 =
      [⟨.logString, 1, [65, 66]⟩, ⟨.deviceSummary, 2, List.replicate 16 7⟩] := by
  refine (round_trip _ [⟨.logString, 1, [65, 66]⟩, ⟨.deviceSummary, 2, List.replicate 16 7⟩] _
    ?_ (by decide +kernel) (by decide +kernel)).1
  intro q hq
  simp only [List.mem_cons, List.not_mem_nil, or_false] at hq
  rcases hq with rfl | rfl
  · exact ⟨by norm_num, by simp [payloadKind, maxLegalElfSegmentSize]⟩
  · exact ⟨by norm_num, by simp [payloadKind]⟩

lemma MemCheckProtocol.receiveAll_oversized (sizeOf : PacketType → ℕ) {msg : List UInt8}
    (h : maxStreamLen ≤ msg.length) : (receiveAll sizeOf {} [msg]).1 = [] := by
  have hfeed : feed {} msg = {} := by
    have hx : Extractor.feed {} msg = {} := by
      unfold Extractor.feed
      rw [if_neg (by dsimp only [List.length_nil]; omega)]
    unfold feed
    rw [hx]
    split_ifs <;> rfl
  have hinc : front sizeOf (rest {}) = .incomplete := front_short (by decide)
  obtain ⟨q, hq, -, -⟩ := getPacket_incomplete wf_empty hinc
  unfold receiveAll receive
  rw [hfeed, drain_none hq]
  rfl

lemma length_stream_replicate (n : ℕ) (q : RawPacket) :
    (stream (List.replicate n q)).length = n * (serialize q).length := by
  unfold stream
  rw [List.map_replicate, List.length_flatten, List.map_replicate, List.sum_replicate]
  rfl

open MemCheckProtocol in
/-- A message of 100 GiB is dropped, so none of the packets in it is returned. -/
theorem oversized_message_lost :
    ¬ ∀ (packets : List RawPacket) (msgs : List (List UInt8)),
      (∀ q ∈ packets, Sendable (fun _ => 16) q) → msgs.flatten = stream packets →
      (receiveAll (fun _ => 16) {} msgs).1 = packets := by
  intro hall
  have hs : Sendable (fun _ => 16) (emptyLog 1) := ⟨by norm_num [emptyLog], Nat.zero_le _⟩
  obtain ⟨n, hn⟩ : ∃ n, n = maxStreamLen := ⟨_, rfl⟩
  have hlen : maxStreamLen ≤ (stream (List.replicate n (emptyLog 1))).length := by
    rw [length_stream_replicate, ← hn]
    exact Nat.le_mul_of_pos_right _ (by decide)
  have h := hall (List.replicate n (emptyLog 1)) [stream (List.replicate n (emptyLog 1))]
    (fun q hq => by rw [List.eq_of_mem_replicate hq]; exact hs) (by simp)
  rw [receiveAll_oversized _ hlen] at h
  have h0 := congrArg List.length h
  rw [List.length_replicate, List.length_nil, hn] at h0
  norm_num [maxStreamLen] at h0

end MsSanitizer.Protocol
