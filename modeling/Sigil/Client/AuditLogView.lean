import Sigil.State.AuditLog

/-! # Reading the audit logs

The client turns the cells of a circular log into a list, the oldest entry first. What it shows of a
log are the entries appended last, in the order in which they were appended.
-/

namespace Sigil.Client

open CircularLog

/-- A buffer that has not wrapped starts at its first cell, a full one at its head. -/
def orderCircularEntries {α : Type} {capacity : ℕ} [NeZero capacity] (raw : Fin capacity → α)
    (head count : ℕ) : List α :=
  if count ≤ 0 then []
  else if count < capacity then (List.ofFn raw).take count
  else (List.range capacity).map fun i => raw (cell capacity (head + i))

structure AuditLogView where
  vault : Pubkey
  head : ℕ
  count : ℕ
  entries : List AuditEntry

def toView {capacity : ℕ} [NeZero capacity] (raw : AuditLog capacity) : AuditLogView where
  vault := raw.vault
  head := raw.head.toNat
  count := raw.count.toNat
  entries := orderCircularEntries raw.entries raw.head.toNat raw.count.toNat

variable {capacity : ℕ} [NeZero capacity]

theorem take_ofFn_eq {α : Type} (raw : Fin capacity → α) {count : ℕ} (hcount : count ≤ capacity) :
    (List.ofFn raw).take count = (List.range count).map fun k => raw (cell capacity k) := by
  apply List.ext_getElem
  · simp [hcount]
  · intro k hk hk'
    rw [List.length_map, List.length_range] at hk'
    have hcell : cell capacity k = ⟨k, by omega⟩ := Fin.ext (Nat.mod_eq_of_lt (by omega))
    rw [List.getElem_take, List.getElem_ofFn, List.getElem_map, List.getElem_range, hcell]

theorem orderCircularEntries_of_holds {α : Type} {cells : Fin capacity → α} {h : List α}
    (hh : Holds cells h) : orderCircularEntries cells (h.length % capacity)
      (min h.length capacity) = h.drop (h.length - capacity) := by
  unfold orderCircularEntries
  rcases Nat.lt_or_ge h.length capacity with hless | hfull
  · have hread := hh.read (Nat.le_refl _) (Nat.le_of_lt hless)
    simp only [Nat.sub_self, Nat.zero_add, List.drop_zero] at hread
    rw [Nat.min_eq_left (Nat.le_of_lt hless), if_pos hless, take_ofFn_eq _ (Nat.le_of_lt hless),
      hread, Nat.sub_eq_zero_of_le (Nat.le_of_lt hless), List.drop_zero]
    split
    · exact (List.eq_nil_of_length_eq_zero (by omega)).symm
    · rfl
  · have hpos : 0 < capacity := Nat.pos_of_neZero capacity
    -- a full log has come round to its oldest entry
    have hcell : ∀ i, cell capacity (h.length % capacity + i) =
        cell capacity (h.length - capacity + i) := by
      intro i
      rw [cell_mod_add, cell_eq_iff, ← Nat.add_mod_right (h.length - capacity + i)]
      congr 1
      omega
    rw [Nat.min_eq_right hfull, if_neg (by omega), if_neg (Nat.lt_irrefl _),
      ← hh.read hfull (Nat.le_refl _)]
    exact List.map_congr_left fun i _ => congrArg cells (hcell i)

structure ShowsNewest (log : AuditLog capacity) (es : List AuditEntry) : Prop where
  entries : (toView log).entries = es.drop (es.length - capacity)
  length : (toView log).entries.length = min es.length capacity
  head_lt : log.head.toNat < capacity
  count_eq : log.count.toNat = min es.length capacity

theorem showsNewest_of_wrote {log : AuditLog capacity} {es : List AuditEntry} (h : log.Wrote es) :
    ShowsNewest log es := by
  have hentries : (toView log).entries = es.drop (es.length - capacity) := by
    rw [toView, h.head, h.count]
    exact orderCircularEntries_of_holds h.holds
  refine ⟨hentries, ?_, ?_, h.count⟩
  · rw [hentries, List.length_drop]
    omega
  · rw [h.head]
    exact Nat.mod_lt _ (Nat.pos_of_neZero capacity)

/-- Both logs keep the newest entries, whatever was appended to them. -/
theorem audit_logs_keep_newest {success : AuditLogSuccess} {rejected : AuditLogRejected}
    (hsuccess : success.Empty) (hrejected : rejected.Empty) (es : List AuditEntry) :
    ShowsNewest (es.foldl AuditLog.append success) es ∧
      ShowsNewest (es.foldl AuditLog.append rejected) es :=
  ⟨showsNewest_of_wrote (hsuccess.wrote_foldl (by decide) es),
    showsNewest_of_wrote (hrejected.wrote_foldl (by decide) es)⟩

section Sample

/-- An entry that tells its number by its time. -/
def numberedEntry (k : ℕ) : AuditEntry :=
  ⟨Pubkey.default, 0, 0, k, List.Vector.replicate 4 0, List.Vector.replicate 3 0, 5⟩

def blankLog (capacity : ℕ) : AuditLog capacity :=
  ⟨Pubkey.default, fun _ => numberedEntry 0, 0, 0⟩

/-- Of 130 entries the long log shows all but the first two, the short one the last 64. -/
theorem audit_logs_keep_newest_wrapped :
    (toView (((List.range 130).map numberedEntry).foldl AuditLog.append
      (blankLog auditLogSuccessCapacity))).entries =
        ((List.range 130).map numberedEntry).drop 2 ∧
    (toView (((List.range 130).map numberedEntry).foldl AuditLog.append
      (blankLog auditLogRejectedCapacity))).entries =
        ((List.range 130).map numberedEntry).drop 66 := by
  have hblank (n : ℕ) [NeZero n] : (blankLog n).Empty := ⟨rfl, rfl⟩
  obtain ⟨hsuccess, hrejected⟩ :=
    audit_logs_keep_newest (hblank _) (hblank _) ((List.range 130).map numberedEntry)
  have hlength : ((List.range 130).map numberedEntry).length = 130 := by simp
  have hs := hsuccess.entries
  have hr := hrejected.entries
  rw [hlength] at hs hr
  exact ⟨hs, hr⟩

end Sample

end Sigil.Client
