import WinDOS.Fs.Ata

/-!
# Errors that a drive reports of a write

Behind the data and behind the flush `ide_write_sector` waits for BSY to be clear and looks at no
other bit of the status. When its result is true all the same.
-/

set_option autoImplicit false

namespace WinDOS

open Bytes

namespace Ata

/-- The drive takes the sector: all four waits come to their end. -/
structure Serves (d : Drive) (s : Nat) : Prop where
  ready : ∃ i, Ends (d.ready s) i
  request : Requests (d.request s)
  stored : ∃ i, Ends (d.stored s) i
  flushed : ∃ i, Ends (d.flushed s) i

/-- The status that ends the wait has BSY, DF and ERR clear. -/
def FinishedWell (polls : Nat → Byte) : Prop :=
  ∃ i, Ends polls i ∧ polls i &&& 0x80 = 0 ∧ polls i &&& 0x20 = 0 ∧ polls i &&& 0x01 = 0

/-- The status that ends the wait, if one does, shows neither DF nor ERR. -/
def NoError (polls : Nat → Byte) : Prop :=
  ∀ i, Ends polls i → polls i &&& 0x20 = 0 ∧ polls i &&& 0x01 = 0

theorem finishedWell_iff {polls : Nat → Byte} (h : ∃ i, Ends polls i) :
    FinishedWell polls ↔ NoError polls := by
  constructor
  · rintro ⟨i, hend, -, hdf, herr⟩ j hj
    rw [hj.unique hend]
    exact ⟨hdf, herr⟩
  · intro hno
    obtain ⟨i, hend⟩ := h
    exact ⟨i, hend, hend.2.1, (hno i hend).1, (hno i hend).2⟩

/-- A round of `ide_write_sector`: a drive that takes the sector, or a return behind one of the four
waits with the channel as it is then. -/
theorem ideWriteSector_round (d : Drive) (drive : Nat) (buf : Buf) (n s lba : Nat) (b : Channel) :
    (Serves d s ∧ ideWriteSector d drive buf (n + 1) s lba b =
        ideWriteSector d drive buf n (s + 1) (wrap32 (lba + 1))
          ((writeWords buf s 256 0 (program b drive lba WRITE_SECTORS)).out8 .stat FLUSH_CACHE)) ∨
      ¬ Serves d s ∧ ∃ code b', code ≠ 0 ∧
        ideWriteSector d drive buf (n + 1) s lba b = (code, b') ∧
        (b' = b ∨ b' = program b drive lba WRITE_SECTORS ∨
          b' = writeWords buf s 256 0 (program b drive lba WRITE_SECTORS) ∨
          b' = (writeWords buf s 256 0 (program b drive lba WRITE_SECTORS)).out8 .stat
            FLUSH_CACHE) := by
  rw [ideWriteSector]
  by_cases hready : ataWaitBsy (d.ready s) = 0
  · rw [if_neg (not_not.mpr hready)]
    dsimp only
    by_cases hrequest : waitDrq (d.request s) DRQ_POLLS 0 = 0
    · rw [if_neg (not_not.mpr hrequest)]
      by_cases hstored : ataWaitBsy (d.stored s) = 0
      · rw [if_neg (not_not.mpr hstored)]
        by_cases hflushed : ataWaitBsy (d.flushed s) = 0
        · rw [if_neg (not_not.mpr hflushed)]
          exact .inl ⟨⟨(ataWaitBsy_iff _).mp hready, (requests_iff _).mp hrequest,
            (ataWaitBsy_iff _).mp hstored, (ataWaitBsy_iff _).mp hflushed⟩, rfl⟩
        · rw [if_pos hflushed]
          exact .inr ⟨fun h => hflushed ((ataWaitBsy_iff _).mpr h.flushed), -6, _, by decide, rfl,
            .inr (.inr (.inr rfl))⟩
      · rw [if_pos hstored]
        exact .inr ⟨fun h => hstored ((ataWaitBsy_iff _).mpr h.stored), -5, _, by decide, rfl,
          .inr (.inr (.inl rfl))⟩
    · rw [if_pos hrequest]
      exact .inr ⟨fun h => hrequest ((requests_iff _).mpr h.request), _, _, hrequest, rfl,
        .inr (.inl rfl)⟩
  · rw [if_pos hready]
    exact .inr ⟨fun h => hready ((ataWaitBsy_iff _).mpr h.ready), -1, _, by decide, rfl, .inl rfl⟩

/-- The call returns 0 exactly if the drive takes every sector. -/
theorem write_code_iff (d : Drive) (drive : Nat) (buf : Buf) (n s lba : Nat) (b : Channel) :
    (ideWriteSector d drive buf n s lba b).1 = 0 ↔ ∀ j < n, Serves d (s + j) := by
  induction n generalizing s lba b with
  | zero => exact iff_of_true rfl fun j hj => absurd hj (Nat.not_lt_zero j)
  | succ n ih =>
    rcases ideWriteSector_round d drive buf n s lba b with ⟨hserves, hrun⟩ | ⟨hnot, code, b', hcode,
      hrun, -⟩
    · rw [hrun, ih]
      constructor
      · intro h j hj
        cases j with
        | zero => exact hserves
        | succ j =>
          rw [show s + (j + 1) = s + 1 + j by omega]
          exact h j (by omega)
      · intro h j hj
        rw [show s + 1 + j = s + (j + 1) by omega]
        exact h (j + 1) (by omega)
    · rw [hrun]
      exact iff_of_false hcode fun h => hnot (h 0 (Nat.succ_pos n))

/-- If the call returns 0, the drive has finished the data and the flush of every sector without an
error. -/
def ErrorsReported (d : Drive) (drive lba count : Nat) (buf : Buf) (b : Channel) : Prop :=
  (ideWriteSector d drive buf count 0 lba b).1 = 0 →
    ∀ s < count, FinishedWell (d.stored s) ∧ FinishedWell (d.flushed s)

/-- Errors are reported exactly if the drive refuses some sector anyway, or shows none behind the
data and the flush. -/
theorem errors_reported_iff (d : Drive) (drive lba count : Nat) (buf : Buf) (b : Channel) :
    ErrorsReported d drive lba count buf b ↔ (∃ s < count, ¬ Serves d s) ∨
      ∀ s < count, NoError (d.stored s) ∧ NoError (d.flushed s) := by
  unfold ErrorsReported
  rw [write_code_iff]
  simp only [Nat.zero_add]
  by_cases hall : ∀ s < count, Serves d s
  · rw [forall_prop_of_true hall, or_iff_right fun ⟨s, hs, hnot⟩ => hnot (hall s hs)]
    exact forall₂_congr fun s hs => and_congr (finishedWell_iff (hall s hs).stored)
      (finishedWell_iff (hall s hs).flushed)
  · refine iff_of_true (fun h => absurd h hall) (.inl ?_)
    by_contra hnone
    exact hall fun s hs => by_contra fun hnot => hnone ⟨s, hs, hnot⟩

/-- A drive that takes every sector and then reports that it could not be written. -/
def failing : Drive where
  ready := fun _ _ => 0x50
  request := fun _ _ => 0x58
  stored := fun _ _ => 0x71
  flushed := fun _ _ => 0x50
  word := fun _ _ => 0

theorem ends_first {polls : Nat → Byte} (h : polls 0 &&& 0x80 = 0) : Ends polls 0 :=
  ⟨by decide, h, fun j hj => absurd hj (Nat.not_lt_zero j)⟩

theorem failing_serves (s : Nat) : Serves failing s where
  ready := ⟨0, ends_first (show (0x50 : Byte) &&& 0x80 = 0 by decide)⟩
  request := ⟨0, by decide, show (0x58 : Byte) &&& 0x08 ≠ 0 by decide,
    fun j hj => absurd hj (Nat.not_lt_zero j)⟩
  stored := ⟨0, ends_first (show (0x71 : Byte) &&& 0x80 = 0 by decide)⟩
  flushed := ⟨0, ends_first (show (0x50 : Byte) &&& 0x80 = 0 by decide)⟩

/-- A write that the drive reports as failed (DF and ERR set behind the data) returns 0. -/
theorem failed_write_unreported :
    (ideWriteSector failing 0 (fun _ => 0) 1 0 100 ⟨0, 0, 0, 0, 0, []⟩).1 = 0 ∧
      ¬ ErrorsReported failing 0 100 1 (fun _ => 0) ⟨0, 0, 0, 0, 0, []⟩ := by
  have hcode : (ideWriteSector failing 0 (fun _ => 0) 1 0 100 ⟨0, 0, 0, 0, 0, []⟩).1 = 0 :=
    (write_code_iff ..).mpr fun j _ => failing_serves (0 + j)
  refine ⟨hcode, fun h => ?_⟩
  obtain ⟨i, -, -, hdf, -⟩ := (h hcode 0 Nat.one_pos).1
  exact absurd hdf (show (0x71 : Byte) &&& 0x20 ≠ 0 by decide)

end Ata

end WinDOS
