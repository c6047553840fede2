import Mathlib.Data.List.Induction
import Sigil.Library.CircularLog
import Sigil.Model.Base

/-! # Audit logs

Two circular logs per vault, one for the instructions that succeeded and a shorter one for rejected
finalizations. Both write at their head and count up to their capacity.
-/

namespace Sigil

open CircularLog

def auditLogSuccessCapacity : ℕ := 128

def auditLogRejectedCapacity : ℕ := 64

instance : NeZero auditLogSuccessCapacity := ⟨by decide⟩

instance : NeZero auditLogRejectedCapacity := ⟨by decide⟩

/-- The hash of the slot and of the block are kept by their first bytes. -/
structure AuditEntry where
  subject : Pubkey
  balanceDeltaIn : ℤ
  balanceDeltaOut : ℤ
  timestamp : ℤ
  slotHash : List.Vector UInt8 4
  blockhash : List.Vector UInt8 3
  discriminator : UInt8

structure AuditLog (capacity : ℕ) where
  vault : Pubkey
  entries : Fin capacity → AuditEntry
  head : UInt8
  count : UInt8

abbrev AuditLogSuccess := AuditLog auditLogSuccessCapacity

abbrev AuditLogRejected := AuditLog auditLogRejectedCapacity

namespace AuditLog

variable {capacity : ℕ} [NeZero capacity]

def append (log : AuditLog capacity) (entry : AuditEntry) : AuditLog capacity :=
  { log with
    entries := Function.update log.entries (cell capacity log.head.toNat) entry
    head := UInt8.ofNat ((log.head.toNat + 1) % capacity)
    count := if log.count.toNat < capacity then UInt8.ofNat (min (log.count.toNat + 1) 255)
      else log.count }

structure Empty (log : AuditLog capacity) : Prop where
  head : log.head = 0
  count : log.count = 0

/-- The log has been written the entries of `h`, in their order. -/
structure Wrote (log : AuditLog capacity) (h : List AuditEntry) : Prop where
  holds : Holds log.entries h
  head : log.head.toNat = h.length % capacity
  count : log.count.toNat = min h.length capacity

variable {log : AuditLog capacity} {h : List AuditEntry}

theorem Empty.wrote (hlog : log.Empty) : log.Wrote [] where
  holds := holds_nil
  head := by rw [hlog.head]; simp
  count := by rw [hlog.count]; simp

theorem Wrote.append (hlog : log.Wrote h) (hcap : capacity ≤ 255) (entry : AuditEntry) :
    (log.append entry).Wrote (h ++ [entry]) := by
  have hpos : 0 < capacity := Nat.pos_of_neZero capacity
  constructor
  · have hcell : cell capacity log.head.toNat = cell capacity h.length := by
      rw [hlog.head, cell_mod]
    rw [AuditLog.append, hcell]
    exact hlog.holds.push
  · have hmod : (h.length % capacity + 1) % capacity = (h.length + 1) % capacity :=
      Nat.mod_add_mod h.length capacity 1
    have hlt : (h.length + 1) % capacity < UInt8.size :=
      (Nat.mod_lt _ hpos).trans (by rw [UInt8.size]; omega)
    rw [AuditLog.append, hlog.head, hmod, List.length_append, List.length_singleton]
    exact UInt8.toNat_ofNat_of_lt' hlt
  · rw [List.length_append, List.length_singleton, AuditLog.append]
    have hcount := hlog.count
    dsimp only
    by_cases hroom : log.count.toNat < capacity
    · rw [if_pos hroom, UInt8.toNat_ofNat_of_lt' (by rw [UInt8.size]; omega)]
      omega
    · rw [if_neg hroom]
      omega

/-- A log that was new holds what was appended since. -/
theorem Empty.wrote_foldl (hlog : log.Empty) (hcap : capacity ≤ 255) (es : List AuditEntry) :
    (es.foldl AuditLog.append log).Wrote es := by
  induction es using List.reverseRecOn with
  | nil => exact hlog.wrote
  | append_singleton es e ih =>
    rw [List.foldl_append, List.foldl_cons, List.foldl_nil]
    exact ih.append hcap e

end AuditLog

end Sigil
