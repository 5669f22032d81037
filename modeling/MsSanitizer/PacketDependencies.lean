import MsSanitizer.PeerAccessManager

/-!
# What a packet waits for

`ProcessQueue::Execute` of `ordered_packet_scheduler.cpp`. The packets of a process are executed
one after the other, but what they cause is checked later: a packet leaves work and behind it a
marker in the queue of the checker of its device, and the work is done when the marker is taken
out. The checker of a device works through its queue in order; between the devices there is no
order but the one that `Execute` enforces by waiting for markers before it dispatches.
-/

namespace MsSanitizer.PacketDependencies

open Packets RecordDefs PeerAccessManager

/-- `DeviceWorkCheckPoints`. A future is the place of its marker in the queue of the device;
`none` is a future that is not valid, and the null pointer. -/
structure DeviceWorkCheckPoints where
  checker : Option ℕ := none
  connection : Option ℕ := none
  lastAccess : Option ℕ := none
  lastUpdate : Option ℕ := none
  lastWork : Option ℕ := none

/-- The queue of one process with what lies around it: the relation of the manager for this
process, and for each device how many markers were put into the queue of its checker and how
many were taken out. A device without an entry in `devices_` has the entry it would be given. -/
structure State where
  /-- `rtContexts_`: the device of a connection. -/
  contexts : ℕ → ℤ := fun _ => 0
  devices : ℤ → DeviceWorkCheckPoints := fun _ => {}
  /-- `relations_`. -/
  relations : Relations := ∅
  manager : Relations := ∅
  queued : ℤ → ℕ := fun _ => 0
  finished : ℤ → ℕ := fun _ => 0

/-! ### The kinds of packets -/

/-- What `Classify` finds out about a packet. -/
structure Kind where
  /-- The packet may look at the memory of other devices. -/
  access : Bool := false
  /-- The packet changes what others find in the memory of this device. -/
  update : Bool := false
  deriving DecidableEq, Repr

def classifyMemory (type : MemOpType) (source : MemInfoSrc) : Kind :=
  let access := decide (type = .load ∨ type = .store ∨ type = .memcpyBlocks)
  { access := access
    update := decide (type = .malloc ∨ type = .free) || (access && decide (source ≠ .bypass)) }

/-- `RecordType::ONLINE_ERROR`, `BLOCK_FINISH` and `KERNEL_FINISH`. -/
def noAccess (recordType : ℕ) : Bool := recordType ∈ [60000, 100000, 100001]

def classify : Payload → Kind
  | .memoryRecord type infoSrc => classifyMemory type infoSrc
  | .kernelRecord => { access := true }
  | .sanitizerRecord (.memoryRecord type infoSrc) => classifyMemory type infoSrc
  | .sanitizerRecord (.kernelRecord recordType) => { access := !noAccess recordType }
  | .sanitizerRecord .regionPermission => { update := true }
  | .memRegionPermission => { update := true }
  | .ipcRecord (.mapInfo ..) => { update := true }
  | .ipcRecord (.unmapInfo _) => { update := true }
  | _ => {}

namespace State

variable (s : State) (job : Job) (sharees : List ℕ)

/-! ### Before the dispatch -/

def device : ℤ :=
  match job.packet.payload with
  | .deviceSummary deviceId => deviceId
  | _ => s.contexts job.connection

/-- The checker and the connection of the device are those of its last packet. -/
def register : State :=
  { s with
    devices := Function.update s.devices (s.device job)
      { s.devices (s.device job) with
        checker := some job.checker, connection := some job.connection } }

/-- `ipcTargets`: the devices whose checkers are among the sharees of the memory that is
destroyed. `ipcUpdates_` says who they are. -/
def isIpcTarget (d : ℤ) : Bool :=
  match job.packet.payload, (s.devices d).checker with
  | .ipcRecord (.destroyInfo _), some checker => checker ∈ sharees
  | _, _ => false

/-- The check of a `PeerAccessRecord` against the device of the connection. -/
def invalidRecord (device : ℤ) (record : PeerAccessRecord) : Bool :=
  decide (record.deviceId ≠ device) ||
  (decide (record.operation = .enable ∨ record.operation = .disable) &&
    decide (record.peerDeviceId < 0 ∨ record.peerDeviceId = device)) ||
  (decide (record.operation = .reset) && decide (record.peerDeviceId ≠ -1)) ||
  decide (record.operation = .other)

/-- `Wait` returns: the marker was taken out, or there is none. -/
def Passed (d : ℤ) (future : Option ℕ) : Prop := ∀ place ∈ future, place ≤ s.finished d

instance (d : ℤ) (future : Option ℕ) : Decidable (s.Passed d future) :=
  match future with
  | none => isTrue fun _ h => by cases h
  | some place =>
    decidable_of_iff (place ≤ s.finished d)
      ⟨fun h _ hp => by cases hp; exact h, fun h => h place rfl⟩

/-- `WaitForReaders` returns. -/
def ReadersPassed (d : ℤ) : Prop :=
  ∀ e ∈ s.relations, e.2 = d → s.Passed e.1 (s.devices e.1).lastAccess

instance (d : ℤ) : Decidable (s.ReadersPassed d) :=
  inferInstanceAs (Decidable (∀ e ∈ s.relations, e.2 = d → _))

/-- All waits of a `PeerAccessRecord` with the peer `peer` return. -/
def RecordPassed (device peer : ℤ) : PeerAccessOp → Prop
  | .reset =>
    ((∃ e ∈ s.relations, e.1 = device) → s.Passed device (s.devices device).lastAccess) ∧
      s.ReadersPassed device
  | .enable => (device, peer) ∉ s.relations → s.Passed device (s.devices device).lastAccess
  | .disable => (device, peer) ∈ s.relations → s.Passed device (s.devices device).lastAccess
  | .other => True

instance (device peer : ℤ) (op : PeerAccessOp) : Decidable (s.RecordPassed device peer op) :=
  match op with
  | .reset => inferInstanceAs (Decidable (_ ∧ _))
  | .enable => inferInstanceAs (Decidable (_ → _))
  | .disable => inferInstanceAs (Decidable (_ → _))
  | .other => inferInstanceAs (Decidable True)

def WorkPassed (device : ℤ) : Prop :=
  ((classify job.packet.payload).access = true →
    ∀ e ∈ s.relations, e.1 = device → s.Passed e.2 (s.devices e.2).lastUpdate) ∧
  ((classify job.packet.payload).update = true → s.ReadersPassed device) ∧
  (∀ e ∈ s.relations, s.isIpcTarget job sharees e.2 = true →
    s.Passed e.1 (s.devices e.1).lastAccess)

instance (device : ℤ) : Decidable (s.WorkPassed job sharees device) :=
  inferInstanceAs (Decidable (_ ∧ _ ∧ _))

/-! ### The dispatch and after it -/

/-- What the dispatch of a packet does to the context of its connection and to the manager. -/
def dispatch (pid : ℤ) : State :=
  match job.packet.payload with
  | .deviceSummary deviceId =>
    { s with contexts := Function.update s.contexts job.connection deviceId }
  | .peerAccessRecord record =>
    if record.deviceId = s.contexts job.connection then
      { s with manager := (apply pid record s.manager).1 }
    else s
  | _ => s

/-- The relation of the queue follows that of the manager. -/
def relate (device : ℤ) : State :=
  match job.packet.payload with
  | .peerAccessRecord record =>
    { s with relations := s.relations.follow device record.peerDeviceId record.operation }
  | _ => s

/-- The completion of the packet becomes the last work of its device. -/
def ownDone (p : DeviceWorkCheckPoints) (done : ℕ) : DeviceWorkCheckPoints :=
  { p with
    lastWork := some done
    lastAccess := if (classify job.packet.payload).access then some done else p.lastAccess
    lastUpdate := if (classify job.packet.payload).update then some done else p.lastUpdate }

/-- A marker is put into the queue of the device, and one into the queue of every target of an
IPC destroy. -/
def complete (device : ℤ) : State :=
  { s with
    queued := fun d =>
      if d = device ∨ s.isIpcTarget job sharees d = true then s.queued d + 1 else s.queued d
    devices := fun d =>
      let done := s.queued d + 1
      let p := if d = device then ownDone job (s.devices d) done else s.devices d
      if s.isIpcTarget job sharees d then { p with lastUpdate := some done, lastWork := some done }
      else p }

/-- `ProcessQueue::Execute`, with the text of `Fail`; `none` while the thread waits. `sharees` is
the answer of `ipcUpdates_`. -/
def execute (pid : ℤ) : Option (State × Option String) :=
  let device := s.device job
  match job.packet.payload with
  | .logString => some (s, none)
  | .peerAccessRecord record =>
    if device < 0 then some (s, some "invalid deviceId")
    else if invalidRecord device record then
      some (s.register job, some "invalid peer access record")
    else if (s.register job).RecordPassed device record.peerDeviceId record.operation then
      some (((((s.register job).dispatch job pid).relate job device).complete job sharees device),
        none)
    else none
  | _ =>
    if device < 0 then some (s, some "invalid deviceId")
    else if (s.register job).WorkPassed job sharees device then
      some (((((s.register job).dispatch job pid).relate job device).complete job sharees device),
        none)
    else none

end State

/-- What happens next in a process. -/
inductive Step
  /-- The thread of the process executes its next packet. -/
  | execute (job : Job) (sharees : List ℕ)
  /-- The checker of a device takes the next marker out of its queue. -/
  | finish (d : ℤ)

def step (pid : ℤ) (s : State) : Step → Option State
  | .execute job sharees => (s.execute job sharees pid).map Prod.fst
  | .finish d =>
    if s.finished d < s.queued d then
      some { s with finished := Function.update s.finished d (s.finished d + 1) }
    else none

/-- A run of the process: packets in the order of their numbers, and completions between them
in any order that is first in, first out for each device. -/
def run (pid : ℤ) (s : State) (steps : List Step) : Option State := steps.foldlM (step pid) s

namespace State

variable {s : State} {job : Job} {sharees : List ℕ} {pid : ℤ}

/-- The packet is dispatched as an access of device `a`. -/
def Accesses (s : State) (job : Job) (a : ℤ) : Prop :=
  0 ≤ a ∧ s.device job = a ∧ (classify job.packet.payload).access = true

/-- The packet is dispatched as an update of device `b`, or `b` is a target of the IPC destroy
that it is. -/
def Updates (s : State) (job : Job) (sharees : List ℕ) (b : ℤ) : Prop :=
  0 ≤ s.device job ∧
    (s.device job = b ∧ (classify job.packet.payload).update = true ∨
      (s.register job).isIpcTarget job sharees b = true)

/-- What `Execute` leaves behind once it dispatched. -/
def executed (s : State) (job : Job) (sharees : List ℕ) (pid : ℤ) : State :=
  (((s.register job).dispatch job pid).relate job (s.device job)).complete job sharees
    (s.device job)

def MayDispatch (s : State) (job : Job) (sharees : List ℕ) : Prop :=
  match job.packet.payload with
  | .peerAccessRecord record =>
    invalidRecord (s.device job) record = false ∧
      (s.register job).RecordPassed (s.device job) record.peerDeviceId record.operation
  | _ => (s.register job).WorkPassed job sharees (s.device job)

/-! ### One packet -/

/-- `Execute` ignores the packet, or it fails and keeps only the checker, or its waits return
and it dispatches. -/
lemma execute_cases {s' : State} {fail : Option String}
    (h : s.execute job sharees pid = some (s', fail)) :
    (s' = s ∧ (job.packet.payload = .logString ∨ s.device job < 0)) ∨
    (s' = s.register job ∧ ∃ record, job.packet.payload = .peerAccessRecord record) ∨
    (s' = s.executed job sharees pid ∧ 0 ≤ s.device job ∧ s.MayDispatch job sharees) := by
  unfold execute at h
  unfold MayDispatch
  dsimp only at h
  split at h
  case h_1 hp =>
    cases h
    exact .inl ⟨rfl, .inl hp⟩
  case h_2 record hp =>
    split_ifs at h with hneg hinv hpass
    · cases h
      exact .inl ⟨rfl, .inr hneg⟩
    · cases h
      exact .inr (.inl ⟨rfl, record, hp⟩)
    · cases h
      rw [hp]
      exact .inr (.inr ⟨rfl, by omega, by simpa using hinv, hpass⟩)
  case h_3 hlog hpeer =>
    split_ifs at h with hneg hpass
    · cases h
      exact .inl ⟨rfl, .inr hneg⟩
    · cases h
      refine .inr (.inr ⟨rfl, by omega, ?_⟩)
      split
      case h_1 record hp => exact absurd hp (hpeer record)
      case h_2 => exact hpass

@[simp] lemma register_queued : (s.register job).queued = s.queued := rfl
@[simp] lemma register_finished : (s.register job).finished = s.finished := rfl
@[simp] lemma register_relations : (s.register job).relations = s.relations := rfl
@[simp] lemma register_manager : (s.register job).manager = s.manager := rfl
@[simp] lemma register_contexts : (s.register job).contexts = s.contexts := rfl

@[simp] lemma register_lastAccess (d : ℤ) :
    ((s.register job).devices d).lastAccess = (s.devices d).lastAccess := by
  unfold register
  by_cases hd : d = s.device job
  · subst hd
    simp
  · simp [hd]

@[simp] lemma register_lastUpdate (d : ℤ) :
    ((s.register job).devices d).lastUpdate = (s.devices d).lastUpdate := by
  unfold register
  by_cases hd : d = s.device job
  · subst hd
    simp
  · simp [hd]

/-- The dispatch leaves the scheduler's own books alone. -/
lemma dispatch_frame (s : State) (job : Job) (pid : ℤ) : ∃ contexts manager,
    s.dispatch job pid = { s with contexts := contexts, manager := manager } := by
  unfold dispatch
  split
  · exact ⟨_, _, rfl⟩
  · split_ifs
    · exact ⟨_, _, rfl⟩
    · exact ⟨_, _, rfl⟩
  · exact ⟨_, _, rfl⟩

lemma relate_frame (s : State) (job : Job) (d : ℤ) :
    ∃ relations, s.relate job d = { s with relations := relations } := by
  unfold relate
  split
  · exact ⟨_, rfl⟩
  · exact ⟨_, rfl⟩

/-- Up to the markers, only the books about connections and relations change. -/
lemma executed_eq (s : State) (job : Job) (sharees : List ℕ) (pid : ℤ) :
    ∃ contexts manager relations, s.executed job sharees pid =
    State.complete { s.register job with
      contexts := contexts, manager := manager, relations := relations } job sharees
        (s.device job) := by
  obtain ⟨contexts, manager, hd⟩ := dispatch_frame (s.register job) job pid
  obtain ⟨relations, hr⟩ := relate_frame ((s.register job).dispatch job pid) job (s.device job)
  refine ⟨contexts, manager, relations, ?_⟩
  unfold executed
  rw [hr, hd]

/-- The devices that get a marker from the packet. -/
def Marks (s : State) (job : Job) (sharees : List ℕ) (d : ℤ) : Prop :=
  d = s.device job ∨ (s.register job).isIpcTarget job sharees d = true

lemma executed_queued_of_marks {d : ℤ} (h : s.Marks job sharees d) :
    (s.executed job sharees pid).queued d = s.queued d + 1 := by
  obtain ⟨contexts, manager, relations, heq⟩ := executed_eq s job sharees pid
  rw [heq]
  exact if_pos h

lemma executed_queued_of_not_marks {d : ℤ} (h : ¬ s.Marks job sharees d) :
    (s.executed job sharees pid).queued d = s.queued d := by
  obtain ⟨contexts, manager, relations, heq⟩ := executed_eq s job sharees pid
  rw [heq]
  exact if_neg h

lemma executed_finished : (s.executed job sharees pid).finished = s.finished := by
  obtain ⟨contexts, manager, relations, heq⟩ := executed_eq s job sharees pid
  rw [heq]
  rfl

lemma executed_lastAccess (d : ℤ) : ((s.executed job sharees pid).devices d).lastAccess =
    if d = s.device job ∧ (classify job.packet.payload).access = true then some (s.queued d + 1)
    else (s.devices d).lastAccess := by
  obtain ⟨contexts, manager, relations, heq⟩ := executed_eq s job sharees pid
  rw [heq]
  simp only [complete]
  by_cases hd : d = s.device job
  · split_ifs <;> simp_all [ownDone]
  · split_ifs <;> simp_all

lemma executed_lastUpdate (d : ℤ) : ((s.executed job sharees pid).devices d).lastUpdate =
    if (s.register job).isIpcTarget job sharees d = true ∨
      d = s.device job ∧ (classify job.packet.payload).update = true then some (s.queued d + 1)
    else (s.devices d).lastUpdate := by
  obtain ⟨contexts, manager, relations, heq⟩ := executed_eq s job sharees pid
  have htarget : ∀ d, isIpcTarget { s.register job with
      contexts := contexts, manager := manager, relations := relations } job sharees d =
        (s.register job).isIpcTarget job sharees d := fun _ => rfl
  rw [heq]
  simp only [complete, htarget]
  by_cases ht : (s.register job).isIpcTarget job sharees d = true
  · simp [ht]
  · by_cases hd : d = s.device job
    · subst hd
      simp [ht, ownDone]
    · simp [ht, hd]

/-! ### The relation of the queue and that of the manager -/

/-- The manager holds the relation of the queue; without an identity of the process it holds
none. -/
def Agrees (pid : ℤ) (s : State) : Prop := s.manager = if 0 ≤ pid then s.relations else ∅

lemma Agrees.mem {a b : ℤ} (h : s.Agrees pid) (hab : (a, b) ∈ s.manager) :
    (a, b) ∈ s.relations := by
  rw [h] at hab
  split_ifs at hab
  · exact hab
  · cases hab

/-- A record is valid if it names the device of the connection and a peer that its operation
allows. -/
lemma valid_of_invalidRecord {device : ℤ} {record : PeerAccessRecord}
    (h : invalidRecord device record = false) :
    record.deviceId = device ∧ record.operation ≠ .other ∧
      (record.operation = .reset → record.peerDeviceId = -1) ∧
      (record.operation ≠ .reset → 0 ≤ record.peerDeviceId ∧ record.peerDeviceId ≠ device) := by
  obtain ⟨deviceId, peer, op⟩ := record
  cases op <;> simp_all [invalidRecord]

lemma executed_record (sharees : List ℕ) (pid : ℤ) {record : PeerAccessRecord}
    (hp : job.packet.payload = .peerAccessRecord record) (hid : record.deviceId = s.device job) :
    (s.executed job sharees pid).relations =
        s.relations.follow (s.device job) record.peerDeviceId record.operation ∧
      (s.executed job sharees pid).manager = (apply pid record s.manager).1 := by
  have hcontext : record.deviceId = s.contexts job.connection := by
    rw [hid]
    unfold device
    rw [hp]
  unfold executed complete relate dispatch
  rw [hp]
  dsimp only
  rw [register_contexts, if_pos hcontext]
  exact ⟨rfl, rfl⟩

lemma executed_work (sharees : List ℕ) (pid : ℤ)
    (h : ∀ record, job.packet.payload ≠ .peerAccessRecord record) :
    (s.executed job sharees pid).relations = s.relations ∧
      (s.executed job sharees pid).manager = s.manager := by
  unfold executed complete relate dispatch
  cases hp : job.packet.payload with
  | peerAccessRecord record => exact absurd hp (h record)
  | _ => exact ⟨rfl, rfl⟩

lemma MayDispatch.record {record : PeerAccessRecord} (h : s.MayDispatch job sharees)
    (hp : job.packet.payload = .peerAccessRecord record) :
    invalidRecord (s.device job) record = false ∧
      (s.register job).RecordPassed (s.device job) record.peerDeviceId record.operation := by
  unfold MayDispatch at h
  rw [hp] at h
  exact h

lemma MayDispatch.work (h : s.MayDispatch job sharees)
    (hp : ∀ record, job.packet.payload ≠ .peerAccessRecord record) :
    (s.register job).WorkPassed job sharees (s.device job) := by
  unfold MayDispatch at h
  split at h
  case h_1 record heq => exact absurd heq (hp record)
  case h_2 => exact h

/-- Both relations take the same record in the same way. -/
lemma executed_agrees (hdev : 0 ≤ s.device job) (hmay : s.MayDispatch job sharees)
    (h : s.Agrees pid) : (s.executed job sharees pid).Agrees pid := by
  unfold Agrees at h ⊢
  by_cases hp : ∃ record, job.packet.payload = .peerAccessRecord record
  · obtain ⟨record, hp⟩ := hp
    obtain ⟨hid, -, hreset, hpeer⟩ := valid_of_invalidRecord (hmay.record hp).1
    obtain ⟨hrel, hman⟩ := executed_record sharees pid hp hid
    rw [hrel, hman]
    by_cases hpid : 0 ≤ pid
    · rw [if_pos hpid] at h ⊢
      rw [apply_eq_follow _ hpid (by omega) hreset (by rw [hid]; exact hpeer), hid, h]
    · rw [if_neg hpid] at h ⊢
      rw [apply_of_neg _ _ (by omega), h]
  · obtain ⟨hrel, hman⟩ := executed_work sharees pid fun record hr => hp ⟨record, hr⟩
    rw [hrel, hman]
    exact h

/-- No pair comes or goes before the last access of the device that loses or gains it is
finished. -/
lemma executed_relations (hmay : s.MayDispatch job sharees) (a b : ℤ) :
    ((a, b) ∈ (s.executed job sharees pid).relations ↔ (a, b) ∈ s.relations) ∨
      s.Passed a (s.devices a).lastAccess := by
  by_cases hp : ∃ record, job.packet.payload = .peerAccessRecord record
  · obtain ⟨record, hp⟩ := hp
    obtain ⟨hinv, hpass⟩ := hmay.record hp
    obtain ⟨hid, -⟩ := valid_of_invalidRecord hinv
    rw [(executed_record sharees pid hp hid).1]
    generalize s.device job = device at hpass ⊢
    cases hop : record.operation with
    | enable =>
      rw [hop] at hpass
      by_cases hab : (a, b) = (device, record.peerDeviceId)
      · obtain ⟨rfl, rfl⟩ := Prod.mk.inj hab
        by_cases hin : (a, record.peerDeviceId) ∈ s.relations
        · exact .inl (iff_of_true (Finset.mem_insert_self _ _) hin)
        · exact .inr (by simpa [Passed] using hpass hin)
      · exact .inl (by simp [Relations.follow, hab])
    | disable =>
      rw [hop] at hpass
      by_cases hab : (a, b) = (device, record.peerDeviceId)
      · obtain ⟨rfl, rfl⟩ := Prod.mk.inj hab
        by_cases hin : (a, record.peerDeviceId) ∈ s.relations
        · exact .inr (by simpa [Passed] using hpass hin)
        · exact .inl (by simp [Relations.follow, hin])
      · exact .inl (by simp [Relations.follow, hab])
    | reset =>
      rw [hop] at hpass
      obtain ⟨hown, hreaders⟩ := hpass
      by_cases hin : (a, b) ∈ s.relations
      · by_cases ha : a = device
        · subst ha
          exact .inr (by simpa [Passed] using hown ⟨(a, b), hin, rfl⟩)
        · by_cases hb : b = device
          · exact .inr (by simpa [Passed] using hreaders (a, b) hin hb)
          · exact .inl (by simp [Relations.follow, Relations.reset, ha, hb])
      · exact .inl (by simp [Relations.follow, Relations.reset, hin])
    | other => exact .inl Iff.rfl
  · rw [(executed_work sharees pid fun record hr => hp ⟨record, hr⟩).1]
    exact .inl Iff.rfl

end State

/-! ### One step -/

section

variable {pid : ℤ} {s s' : State} {st : Step}

/-- A step changes nothing, stores the checker of a device, dispatches a packet whose waits
returned, or takes out a marker. -/
lemma step_cases (h : step pid s st = some s') :
    s' = s ∨ (∃ job, s' = s.register job) ∨
    (∃ job sharees, s' = s.executed job sharees pid ∧ 0 ≤ s.device job ∧
      s.MayDispatch job sharees) ∨
    (∃ d, s.finished d < s.queued d ∧
      s' = { s with finished := Function.update s.finished d (s.finished d + 1) }) := by
  cases st with
  | execute job sharees =>
    obtain ⟨⟨t, fail⟩, hexec, rfl⟩ := Option.map_eq_some_iff.1 h
    rcases State.execute_cases hexec with ⟨rfl, -⟩ | ⟨rfl, -⟩ | ⟨rfl, hdev, hmay⟩
    · exact .inl rfl
    · exact .inr (.inl ⟨job, rfl⟩)
    · exact .inr (.inr (.inl ⟨job, sharees, rfl, hdev, hmay⟩))
  | finish d =>
    unfold step at h
    dsimp only at h
    split_ifs at h with hlt
    cases h
    exact .inr (.inr (.inr ⟨d, hlt, rfl⟩))

lemma step_agrees (h : step pid s st = some s') (hs : s.Agrees pid) : s'.Agrees pid := by
  rcases step_cases h with rfl | ⟨job, rfl⟩ | ⟨job, sharees, rfl, hdev, hmay⟩ | ⟨d, -, rfl⟩
  · exact hs
  · exact hs
  · exact State.executed_agrees hdev hmay hs
  · exact hs

lemma step_finished_le (h : step pid s st = some s') (d : ℤ) : s.finished d ≤ s'.finished d := by
  rcases step_cases h with rfl | ⟨job, rfl⟩ | ⟨job, sharees, rfl, -⟩ | ⟨e, -, rfl⟩
  · exact le_rfl
  · exact le_rfl
  · rw [State.executed_finished]
  · by_cases hd : d = e
    · subst hd
      simp
    · simp [hd]

lemma step_queued_le (h : step pid s st = some s') (d : ℤ) : s.queued d ≤ s'.queued d := by
  rcases step_cases h with rfl | ⟨job, rfl⟩ | ⟨job, sharees, rfl, -⟩ | ⟨e, -, rfl⟩
  · exact le_rfl
  · exact le_rfl
  · by_cases hm : s.Marks job sharees d
    · rw [State.executed_queued_of_marks hm]
      omega
    · rw [State.executed_queued_of_not_marks hm]
  · exact le_rfl

/-- The last access of a device stays, or is the marker just put into its queue. -/
lemma step_lastAccess (h : step pid s st = some s') (d : ℤ) :
    (s'.devices d).lastAccess = (s.devices d).lastAccess ∨
      (s'.devices d).lastAccess = some (s'.queued d) := by
  rcases step_cases h with rfl | ⟨job, rfl⟩ | ⟨job, sharees, rfl, -⟩ | ⟨e, -, rfl⟩
  · exact .inl rfl
  · exact .inl (State.register_lastAccess d)
  · rw [State.executed_lastAccess]
    split_ifs with hc
    · exact .inr (by rw [State.executed_queued_of_marks (.inl hc.1)])
    · exact .inl rfl
  · exact .inl rfl

lemma step_lastUpdate (h : step pid s st = some s') (d : ℤ) :
    (s'.devices d).lastUpdate = (s.devices d).lastUpdate ∨
      (s'.devices d).lastUpdate = some (s'.queued d) := by
  rcases step_cases h with rfl | ⟨job, rfl⟩ | ⟨job, sharees, rfl, -⟩ | ⟨e, -, rfl⟩
  · exact .inl rfl
  · exact .inl (State.register_lastUpdate d)
  · rw [State.executed_lastUpdate]
    split_ifs with hc
    · exact .inr (by rw [State.executed_queued_of_marks (hc.elim .inr fun h => .inl h.1)])
    · exact .inl rfl
  · exact .inl rfl

lemma step_relations (h : step pid s st = some s') (a b : ℤ) :
    ((a, b) ∈ s'.relations ↔ (a, b) ∈ s.relations) ∨ s.Passed a (s.devices a).lastAccess := by
  rcases step_cases h with rfl | ⟨job, rfl⟩ | ⟨job, sharees, rfl, -, hmay⟩ | ⟨e, -, rfl⟩
  · exact .inl Iff.rfl
  · exact .inl Iff.rfl
  · exact State.executed_relations hmay a b
  · exact .inl Iff.rfl

/-! ### Runs -/

lemma run_cons (pid : ℤ) (s : State) (st : Step) (steps : List Step) :
    run pid s (st :: steps) = (step pid s st).bind fun t => run pid t steps := rfl

lemma run_append (pid : ℤ) (s : State) (xs ys : List Step) :
    run pid s (xs ++ ys) = (run pid s xs).bind fun t => run pid t ys := List.foldlM_append

lemma run_keeps {P : State → Prop} {steps : List Step}
    (hstep : ∀ s st s', step pid s st = some s' → P s → P s')
    (h : run pid s steps = some s') (hs : P s) : P s' := by
  induction steps generalizing s with
  | nil =>
    cases h
    exact hs
  | cons st steps ih =>
    rw [run_cons] at h
    obtain ⟨t, ht, h⟩ := Option.bind_eq_some_iff.1 h
    exact ih h (hstep s st t ht hs)

/-- The marker at `place` in the queue of `d` comes no later than the one of `future`. -/
structure Covers (s : State) (d : ℤ) (place : ℕ) (future : Option ℕ) : Prop where
  queued : place ≤ s.queued d
  reached : ∃ n ∈ future, place ≤ n

lemma Covers.finished {d : ℤ} {place : ℕ} {future : Option ℕ} (h : Covers s d place future)
    (hp : s.Passed d future) : place ≤ s.finished d := by
  obtain ⟨n, hn, hle⟩ := h.reached
  exact hle.trans (hp n hn)

/-- Once there is a later marker behind the one at `place`, there always is. -/
lemma Covers.next {d : ℤ} {place : ℕ} {future future' : Option ℕ} (h : Covers s d place future)
    (hq : s.queued d ≤ s'.queued d) (hf : future' = future ∨ future' = some (s'.queued d)) :
    Covers s' d place future' := by
  refine ⟨h.queued.trans hq, ?_⟩
  rcases hf with rfl | rfl
  · exact h.reached
  · exact ⟨_, rfl, h.queued.trans hq⟩

lemma run_covers_access {d : ℤ} {place : ℕ} {steps : List Step} (h : run pid s steps = some s')
    (hs : Covers s d place (s.devices d).lastAccess) :
    Covers s' d place (s'.devices d).lastAccess :=
  run_keeps (P := fun t => Covers t d place (t.devices d).lastAccess)
    (fun _ _ _ ht hc => hc.next (step_queued_le ht d) (step_lastAccess ht d)) h hs

lemma run_covers_update {d : ℤ} {place : ℕ} {steps : List Step} (h : run pid s steps = some s')
    (hs : Covers s d place (s.devices d).lastUpdate) :
    Covers s' d place (s'.devices d).lastUpdate :=
  run_keeps (P := fun t => Covers t d place (t.devices d).lastUpdate)
    (fun _ _ _ ht hc => hc.next (step_queued_le ht d) (step_lastUpdate ht d)) h hs

/-- As long as an access of `a` is not finished, no pair comes or goes for `a`. -/
lemma run_relations {a b : ℤ} {place : ℕ} {steps : List Step} (h : run pid s steps = some s')
    (hs : Covers s a place (s.devices a).lastAccess) :
    ((a, b) ∈ s'.relations ↔ (a, b) ∈ s.relations) ∨ place ≤ s'.finished a := by
  induction steps generalizing s with
  | nil =>
    cases h
    exact .inl Iff.rfl
  | cons st steps ih =>
    rw [run_cons] at h
    obtain ⟨t, ht, h⟩ := Option.bind_eq_some_iff.1 h
    have hcov := hs.next (step_queued_le ht a) (step_lastAccess ht a)
    rcases step_relations ht a b with hiff | hpass
    · rw [← hiff]
      exact ih h hcov
    · right
      have hle := (hs.finished hpass).trans (step_finished_le ht a)
      exact run_keeps (P := fun t => place ≤ t.finished a)
        (fun _ _ _ hu hc => hc.trans (step_finished_le hu a)) h hle

lemma run_agrees {steps : List Step} (h : run pid {} steps = some s) : s.Agrees pid := by
  refine run_keeps (fun _ _ _ ht => step_agrees ht) h ?_
  unfold State.Agrees
  split_ifs <;> rfl

/-- The futures of the devices are behind markers that were put into the queues. -/
def State.Placed (s : State) : Prop :=
  ∀ d, (∀ n ∈ (s.devices d).lastAccess, n ≤ s.queued d) ∧
    ∀ n ∈ (s.devices d).lastUpdate, n ≤ s.queued d

lemma step_placed (h : step pid s st = some s') (hs : s.Placed) : s'.Placed := by
  intro d
  have hq := step_queued_le h d
  constructor
  · rcases step_lastAccess h d with heq | heq
    · rw [heq]
      exact fun n hn => ((hs d).1 n hn).trans hq
    · rw [heq]
      exact fun n hn => (Option.mem_some_iff.1 hn).ge
  · rcases step_lastUpdate h d with heq | heq
    · rw [heq]
      exact fun n hn => ((hs d).2 n hn).trans hq
    · rw [heq]
      exact fun n hn => (Option.mem_some_iff.1 hn).ge

lemma run_placed {steps : List Step} (h : run pid {} steps = some s) : s.Placed := by
  refine run_keeps (fun _ _ _ ht => step_placed ht) h fun d => ⟨fun n hn => ?_, fun n hn => ?_⟩
  · cases hn
  · cases hn

/-- **No packet waits for ever.** When the checkers have taken out all markers, every wait
returns. -/
lemma execute_isSome (hs : s.Placed) (hdone : ∀ d, s.queued d ≤ s.finished d) (job : Job)
    (sharees : List ℕ) : (s.execute job sharees pid).isSome := by
  have haccess : ∀ d, (s.register job).Passed d ((s.register job).devices d).lastAccess := by
    intro d n hn
    rw [State.register_lastAccess] at hn
    exact ((hs d).1 n hn).trans (hdone d)
  have hupdate : ∀ d, (s.register job).Passed d ((s.register job).devices d).lastUpdate := by
    intro d n hn
    rw [State.register_lastUpdate] at hn
    exact ((hs d).2 n hn).trans (hdone d)
  have hreaders : ∀ d, (s.register job).ReadersPassed d := fun d e _ _ => haccess e.1
  have hwork : (s.register job).WorkPassed job sharees (s.device job) :=
    ⟨fun _ e _ _ => hupdate e.2, fun _ => hreaders _, fun e _ _ => haccess e.1⟩
  have hrecord : ∀ peer op, (s.register job).RecordPassed (s.device job) peer op := by
    intro peer op
    cases op with
    | reset => exact ⟨fun _ => haccess _, hreaders _⟩
    | enable => exact fun _ => haccess _
    | disable => exact fun _ => haccess _
    | other => trivial
  unfold State.execute
  dsimp only
  split
  · rfl
  · rw [if_pos (hrecord _ _)]
    split_ifs <;> rfl
  · rw [if_pos hwork]
    split_ifs <;> rfl

end

/-! ### Accesses and updates -/

section

variable {pid : ℤ} {s s' : State} {job : Job} {sharees : List ℕ}

/-- A step that executes an access or an update dispatches it, so its waits returned. -/
lemma step_dispatches (h : step pid s (.execute job sharees) = some s')
    (hdev : 0 ≤ s.device job) (hlog : job.packet.payload ≠ .logString)
    (hpeer : ∀ record, job.packet.payload ≠ .peerAccessRecord record) :
    s' = s.executed job sharees pid ∧
      (s.register job).WorkPassed job sharees (s.device job) := by
  obtain ⟨⟨t, fail⟩, hexec, rfl⟩ := Option.map_eq_some_iff.1 h
  rcases State.execute_cases hexec with ⟨-, hl | hneg⟩ | ⟨-, record, hp⟩ | ⟨rfl, -, hmay⟩
  · exact absurd hl hlog
  · omega
  · exact absurd hp (hpeer record)
  · exact ⟨rfl, hmay.work hpeer⟩

lemma access_dispatches {a : ℤ} (h : step pid s (.execute job sharees) = some s')
    (ha : s.Accesses job a) :
    s' = s.executed job sharees pid ∧
      (s.register job).WorkPassed job sharees (s.device job) := by
  obtain ⟨h0, hdev, hacc⟩ := ha
  refine step_dispatches h (by omega) ?_ ?_
  · intro hp
    rw [hp] at hacc
    cases hacc
  · intro record hp
    rw [hp] at hacc
    cases hacc

lemma update_dispatches {b : ℤ} (h : step pid s (.execute job sharees) = some s')
    (hb : s.Updates job sharees b) :
    s' = s.executed job sharees pid ∧
      (s.register job).WorkPassed job sharees (s.device job) := by
  obtain ⟨h0, hup⟩ := hb
  refine step_dispatches h h0 ?_ ?_
  · intro hp
    simp [hp, classify, State.isIpcTarget] at hup
  · intro record hp
    simp [hp, classify, State.isIpcTarget] at hup

/-- The marker of an access is the last access of its device. -/
lemma access_covers {a : ℤ} (h : step pid s (.execute job sharees) = some s')
    (ha : s.Accesses job a) : Covers s' a (s'.queued a) (s'.devices a).lastAccess := by
  obtain ⟨rfl, -⟩ := access_dispatches h ha
  obtain ⟨-, hdev, hacc⟩ := ha
  refine ⟨le_rfl, s.queued a + 1, ?_, ?_⟩
  · rw [State.executed_lastAccess, if_pos ⟨hdev.symm, hacc⟩]
    rfl
  · rw [State.executed_queued_of_marks (.inl hdev.symm)]

/-- The marker of an update is the last update of the device, also of a target. -/
lemma update_covers {b : ℤ} (h : step pid s (.execute job sharees) = some s')
    (hb : s.Updates job sharees b) : Covers s' b (s'.queued b) (s'.devices b).lastUpdate := by
  obtain ⟨rfl, -⟩ := update_dispatches h hb
  obtain ⟨-, hup⟩ := hb
  have hup' : (s.register job).isIpcTarget job sharees b = true ∨
      b = s.device job ∧ (classify job.packet.payload).update = true :=
    hup.elim (fun h => .inr ⟨h.1.symm, h.2⟩) .inl
  refine ⟨le_rfl, s.queued b + 1, ?_, ?_⟩
  · rw [State.executed_lastUpdate, if_pos hup']
    rfl
  · rw [State.executed_queued_of_marks (hup'.elim .inr fun h => .inl h.1)]

/-- An update waits for the accesses of the devices that may access it. -/
lemma update_waits {a b : ℤ} (h : step pid s (.execute job sharees) = some s')
    (hb : s.Updates job sharees b) (hab : (a, b) ∈ s.relations) :
    s.Passed a (s.devices a).lastAccess := by
  obtain ⟨-, -, hreaders, htargets⟩ := update_dispatches h hb
  obtain ⟨-, ⟨rfl, hup⟩ | htarget⟩ := hb
  · have := hreaders hup (a, s.device job) hab rfl
    rwa [State.register_lastAccess] at this
  · have := htargets (a, b) hab htarget
    rwa [State.register_lastAccess] at this

/-- An access waits for the updates of the devices that it may access. -/
lemma access_waits {a b : ℤ} (h : step pid s (.execute job sharees) = some s')
    (ha : s.Accesses job a) (hab : (a, b) ∈ s.relations) :
    s.Passed b (s.devices b).lastUpdate := by
  obtain ⟨-, hupdates, -, -⟩ := access_dispatches h ha
  obtain ⟨-, rfl, hacc⟩ := ha
  have := hupdates hacc (s.device job, b) hab rfl
  rwa [State.register_lastUpdate] at this

end

/-- At some moment of the run, its ends included, device `a` may access device `b`. -/
def AuthorisedDuring (pid : ℤ) (s : State) (steps : List Step) (a b : ℤ) : Prop :=
  ∃ past future t, steps = past ++ future ∧ run pid s past = some t ∧ (a, b) ∈ t.manager

/-- **Accesses and updates are checked in their order.** Let a run execute two packets, one
after the other, with anything between them. If the first is an access of `a` and the second an
update of `b`, and `a` may access `b` at some moment between the two, then the access is finished
when the update is dispatched. If the first is an update of `b` and the second an access of `a`,
and `a` may access `b` when it comes to the access, then the update is finished when the access
is dispatched. -/
theorem checked_in_order {pid : ℤ} {before between : List Step} {first second : Job}
    {sharees₁ sharees₂ : List ℕ} {s₁ s₂ s₃ s₄ : State}
    (hbefore : run pid {} before = some s₁)
    (hfirst : step pid s₁ (.execute first sharees₁) = some s₂)
    (hbetween : run pid s₂ between = some s₃)
    (hsecond : step pid s₃ (.execute second sharees₂) = some s₄) (a b : ℤ) :
    (s₁.Accesses first a → s₃.Updates second sharees₂ b → AuthorisedDuring pid s₂ between a b →
      s₂.queued a ≤ s₃.finished a) ∧
    (s₁.Updates first sharees₁ b → s₃.Accesses second a → (a, b) ∈ s₃.manager →
      s₂.queued b ≤ s₃.finished b) := by
  have hrun₂ : run pid {} (before ++ [.execute first sharees₁]) = some s₂ := by
    rw [run_append, hbefore, Option.bind_some, run_cons, hfirst]
    rfl
  constructor
  · rintro ha hb ⟨past, future, t, rfl, hpast, hauth⟩
    have hrunt : run pid {} (before ++ [.execute first sharees₁] ++ past) = some t := by
      rw [run_append, hrun₂, Option.bind_some, hpast]
    have hfuture : run pid t future = some s₃ := by
      rw [run_append, hpast, Option.bind_some] at hbetween
      exact hbetween
    have hcov : Covers t a (s₂.queued a) (t.devices a).lastAccess :=
      run_covers_access hpast (access_covers hfirst ha)
    -- the pair is there at `t`: it stays up to the update, or its end waited for the access
    rcases run_relations (b := b) hfuture hcov with hiff | hdone
    · have hab : (a, b) ∈ s₃.relations := hiff.2 ((run_agrees hrunt).mem hauth)
      exact (run_covers_access hfuture hcov).finished (update_waits hsecond hb hab)
    · exact hdone
  · intro hb ha hauth
    have hrun₃ : run pid {} (before ++ [.execute first sharees₁] ++ between) = some s₃ := by
      rw [run_append, hrun₂, Option.bind_some, hbetween]
    have hab : (a, b) ∈ s₃.relations := (run_agrees hrun₃).mem hauth
    exact (run_covers_update hbetween (update_covers hfirst hb)).finished
      (access_waits hsecond ha hab)

/-- A packet of device 0 or 1 of a process, each with a connection and a checker of its own. -/
def packetOf (device : ℕ) (payload : Payload) : Job :=
  { pid := 7, connection := device, checker := device, packet := { orderId := 1, payload } }

def twoDevices : List Step :=
  [.execute (packetOf 0 (.deviceSummary 0)) [], .execute (packetOf 1 (.deviceSummary 1)) [],
    .execute (packetOf 1 (.peerAccessRecord ⟨1, 0, .enable⟩)) []]

lemma eq_some_getD {x : Option State} (h : x.isSome = true) : x = some (x.getD {}) := by
  cases x with
  | none => cases h
  | some s => rfl

/-- Device 1 loads and the load is finished; then device 0 frees. -/
theorem checked_in_order_load_free : ∃ s₁ s₂ s₃ s₄ : State,
    run 7 {} twoDevices = some s₁ ∧
    step 7 s₁ (.execute (packetOf 1 (.memoryRecord .load .bypass)) []) = some s₂ ∧
    run 7 s₂ [.finish 1, .finish 1, .finish 1] = some s₃ ∧
    step 7 s₃ (.execute (packetOf 0 (.memoryRecord .free .acl)) []) = some s₄ ∧
    s₂.queued 1 ≤ s₃.finished 1 := by
  let s₁ := (run 7 {} twoDevices).getD {}
  let s₂ := (step 7 s₁ (.execute (packetOf 1 (.memoryRecord .load .bypass)) [])).getD {}
  let s₃ := (run 7 s₂ [.finish 1, .finish 1, .finish 1]).getD {}
  let s₄ := (step 7 s₃ (.execute (packetOf 0 (.memoryRecord .free .acl)) [])).getD {}
  have h₁ : run 7 {} twoDevices = some s₁ :=
    eq_some_getD (by decide +kernel)
  have h₂ : step 7 s₁ (.execute (packetOf 1 (.memoryRecord .load .bypass)) []) = some s₂ :=
    eq_some_getD (by decide +kernel)
  have h₃ : run 7 s₂ [.finish 1, .finish 1, .finish 1] = some s₃ :=
    eq_some_getD (by decide +kernel)
  have h₄ : step 7 s₃ (.execute (packetOf 0 (.memoryRecord .free .acl)) []) = some s₄ :=
    eq_some_getD (by decide +kernel)
  have hauth : AuthorisedDuring 7 s₂ [.finish 1, .finish 1, .finish 1] 1 0 :=
    ⟨[], _, s₂, rfl, rfl, by decide +kernel⟩
  exact ⟨s₁, s₂, s₃, s₄, h₁, h₂, h₃, h₄, (checked_in_order h₁ h₂ h₃ h₄ 1 0).1
    ⟨by decide, by decide +kernel, rfl⟩ ⟨by decide +kernel, .inl ⟨by decide +kernel, rfl⟩⟩ hauth⟩

/-- **An access is checked under the authorisations it was dispatched under.** Whom its device
may access does not change before it is finished. -/
theorem authorised_until_finished {pid : ℤ} {before steps : List Step} {job : Job}
    {sharees : List ℕ} {s₁ s₂ s₃ : State} {a : ℤ} (hbefore : run pid {} before = some s₁)
    (hjob : step pid s₁ (.execute job sharees) = some s₂) (ha : s₁.Accesses job a)
    (hsteps : run pid s₂ steps = some s₃) (hopen : s₃.finished a < s₂.queued a) (b : ℤ) :
    (a, b) ∈ s₃.manager ↔ (a, b) ∈ s₂.manager := by
  have hrun₂ : run pid {} (before ++ [.execute job sharees]) = some s₂ := by
    rw [run_append, hbefore, Option.bind_some, run_cons, hjob]
    rfl
  have hrun₃ : run pid {} (before ++ [.execute job sharees] ++ steps) = some s₃ := by
    rw [run_append, hrun₂, Option.bind_some, hsteps]
  rcases run_relations (b := b) hsteps (access_covers hjob ha) with hiff | hdone
  · rw [run_agrees hrun₂, run_agrees hrun₃]
    split_ifs
    · exact hiff
    · exact Iff.rfl
  · omega

end MsSanitizer.PacketDependencies
