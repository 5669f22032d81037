import Mathlib.Data.Finset.Image
import MsSanitizer.Packets

/-!
# Who may access whom

The relation of `peer_access_manager.cpp` between the devices of one process, and the look at the
memory of other devices that it allows.
-/

namespace MsSanitizer.PeerAccessManager

open Packets

/-- The pairs `(a, b)` such that device `a` may access the memory of device `b`. A map from `a` to
the set of its `b`; an entry with the empty set is no entry. -/
abbrev Relations := Finset (ℤ × ℤ)

/-- Neither may a device that is reset access others, nor others it. -/
def Relations.reset (r : Relations) (device : ℤ) : Relations :=
  r.filter fun e => e.1 ≠ device ∧ e.2 ≠ device

/-- `PeerAccessManager::Apply` on the relation of the process, and whether it accepts the
record. -/
def apply (pid : ℤ) (record : PeerAccessRecord) (r : Relations) : Relations × Bool :=
  if pid < 0 ∨ record.deviceId < 0 then (r, false)
  else
    match record.operation with
    | .enable =>
      if record.peerDeviceId < 0 ∨ record.peerDeviceId = record.deviceId then (r, false)
      else (insert (record.deviceId, record.peerDeviceId) r, true)
    | .disable =>
      if record.peerDeviceId < 0 ∨ record.peerDeviceId = record.deviceId then (r, false)
      else (r.erase (record.deviceId, record.peerDeviceId), true)
    | .reset =>
      if record.peerDeviceId ≠ -1 then (r, false)
      else (r.reset record.deviceId, true)
    | .other => (r, false)

/-- What an operation of `device` does to a relation. -/
def Relations.follow (r : Relations) (device peer : ℤ) : PeerAccessOp → Relations
  | .enable => insert (device, peer) r
  | .disable => r.erase (device, peer)
  | .reset => r.reset device
  | .other => r

/-- A record with a peer that its operation allows is followed. -/
lemma apply_eq_follow {pid : ℤ} {record : PeerAccessRecord} (r : Relations) (hpid : 0 ≤ pid)
    (hdev : 0 ≤ record.deviceId)
    (hreset : record.operation = .reset → record.peerDeviceId = -1)
    (hpeer : record.operation ≠ .reset →
      0 ≤ record.peerDeviceId ∧ record.peerDeviceId ≠ record.deviceId) :
    (apply pid record r).1 =
      r.follow record.deviceId record.peerDeviceId record.operation := by
  obtain ⟨device, peer, op⟩ := record
  unfold apply
  dsimp only at hdev hreset hpeer ⊢
  rw [if_neg (by rintro (h | h) <;> omega)]
  cases op with
  | enable =>
    obtain ⟨h0, hne⟩ := hpeer (by simp)
    exact congrArg Prod.fst (if_neg (by rintro (h | h) <;> omega))
  | disable =>
    obtain ⟨h0, hne⟩ := hpeer (by simp)
    exact congrArg Prod.fst (if_neg (by rintro (h | h) <;> omega))
  | reset =>
    have h := hreset rfl
    exact congrArg Prod.fst (if_neg (by simpa using h))
  | other => rfl

/-- A process without an identity is given no relation. -/
lemma apply_of_neg {pid : ℤ} (record : PeerAccessRecord) (r : Relations) (hpid : pid < 0) :
    (apply pid record r).1 = r := by
  unfold apply
  rw [if_pos (.inl hpid)]

/-- `PeerAccessManager::CheckRemote` for an access of a registered device. `covers b` is
`CheckExistingGmRange` of the sanitizer of device `b`, if there is one. -/
def checkRemote (r : Relations) (covers : ℤ → ℕ → ℕ → Option Bool) (source : ℤ)
    (addr size : ℕ) : Bool :=
  if size = 0 ∨ 2 ^ 64 - 1 < addr + size then false
  else decide (∃ e ∈ r, e.1 = source ∧ covers e.2 addr size = some true)

end MsSanitizer.PeerAccessManager
