import WinDOS.Fs.Reads

/-!
# What `exfat_init` does

On a ready NVMe controller the first partition of the NVMe disk decides; `nvmeVolume` names
it. Otherwise the ATA positions are probed, or the forced one is checked.
-/

set_option autoImplicit false

namespace WinDOS

open Bytes

/-! ### Tests of a sector that was read to a buffer -/

section Loaded

variable (st sec : Buf)

theorem blit_sector {i : Nat} (h : i < 512) : blit st 0 sec 512 i = sec i := by
  rw [blit_in (by omega) (by omega), Nat.sub_zero]

theorem le_sector {off n : Nat} (h : off + n ≤ 512) :
    le (blit st 0 sec 512) off n = le sec off n :=
  le_congr fun _ _ h1 => blit_sector st sec (by omega)

namespace Exfat

@[simp] theorem hasSignature_blit : hasSignature (blit st 0 sec 512) = hasSignature sec := by
  simp only [hasSignature, blit_sector st sec (by omega : 510 < 512),
    blit_sector st sec (by omega : 511 < 512)]

@[simp] theorem firstPartition_blit : firstPartition (blit st 0 sec 512) = firstPartition sec :=
  le_sector st sec (by omega)

@[simp] theorem isExfat_blit : isExfat (blit st 0 sec 512) = isExfat sec := by
  simp only [isExfat, hasSignature_blit, blit_sector st sec (by omega : 3 < 512),
    blit_sector st sec (by omega : 4 < 512), blit_sector st sec (by omega : 5 < 512),
    blit_sector st sec (by omega : 6 < 512), blit_sector st sec (by omega : 7 < 512)]

@[simp] theorem decodeBoot_blit : decodeBoot (blit st 0 sec 512) = decodeBoot sec := by
  simp (disch := omega) only [decodeBoot, le_sector]

end Exfat

end Loaded

namespace Exfat

/-- The state with another disk position and partition. -/
def moved (fs : Exfat) (ch dv partLba : Nat) : Exfat :=
  { fs with ch := ch, dv := dv, partLba := partLba }

/-- The clusters of a volume fit `g_tmp`. -/
def fits (boot : ExfatBoot) : Bool := wrap32 (shl1 boot.bpsShift * shl1 boot.spcShift) ≤ TMP_SIZE

/-- The state with the geometry of a boot sector, which `src` names. -/
def loaded (fs : Exfat) (boot : ExfatBoot) (src : Dev × Nat) : Exfat :=
  { fs with
    boot := boot
    bps := shl1 boot.bpsShift
    spc := shl1 boot.spcShift
    bpc := wrap32 (shl1 boot.bpsShift * shl1 boot.spcShift)
    bootFrom := some src
    ok := fs.ok || fits boot }

theorem loadBoot_eq (fs : Exfat) (buf : Buf) (src : Dev × Nat) :
    fs.loadBoot buf src =
      (if fits (decodeBoot buf) then 0 else -4, fs.loaded (decodeBoot buf) src) := by
  unfold loadBoot loaded fits
  dsimp only
  by_cases h : wrap32 (shl1 (decodeBoot buf).bpsShift * shl1 (decodeBoot buf).spcShift) > TMP_SIZE
  · rw [if_pos h]
    have hle : ¬ wrap32 (shl1 (decodeBoot buf).bpsShift * shl1 (decodeBoot buf).spcShift) ≤
        TMP_SIZE := by omega
    simp [hle]
  · rw [if_neg h]
    have hle : wrap32 (shl1 (decodeBoot buf).bpsShift * shl1 (decodeBoot buf).spcShift) ≤
        TMP_SIZE := by omega
    simp [hle]

/-! ### ATA -/

theorem ideRd_eq (fs : Exfat) (ch dv lba : Nat) :
    fs.ideRd ch dv lba =
      (if fs.disks.media.faults (.ata ch dv) (fs.disks.media.issued (.ata ch dv)) = none then
        some (blit fs.stack 0 (fs.disks.media.sector (.ata ch dv) (lba28 lba)) 512) else none,
      fs.after (fs.bumpAt (.ata ch dv) 1) fs.tmp fs.log) := by
  unfold ideRd
  rw [Disks.ideReadSector]
  by_cases hf : fs.disks.media.faults (.ata ch dv) (fs.disks.media.issued (.ata ch dv)) = none
  · rw [if_pos hf, Media.read_ok hf]
    rfl
  · rw [if_neg hf, Media.read_fail hf]
    rfl

/-- What the next read at an ATA position delivers, if it succeeds and the sector is an exFAT
boot sector. -/
def ataBoot (fs : Exfat) (ch dv lba : Nat) : Option ExfatBoot :=
  let sec := fs.disks.media.sector (.ata ch dv) (lba28 lba)
  if fs.disks.media.faults (.ata ch dv) (fs.disks.media.issued (.ata ch dv)) = none ∧
      isExfat sec = true then some (decodeBoot sec) else none

theorem ataBoot_some {fs : Exfat} {ch dv lba : Nat} {boot : ExfatBoot}
    (h : fs.ataBoot ch dv lba = some boot) :
    isExfat (fs.disks.media.sector (.ata ch dv) (lba28 lba)) = true ∧
      boot = decodeBoot (fs.disks.media.sector (.ata ch dv) (lba28 lba)) := by
  unfold ataBoot at h
  dsimp only at h
  split at h
  · rename_i hall
    exact ⟨hall.2, (Option.some.inj h).symm⟩
  · cases h

theorem initFrom_forced {fs : Exfat} (hforced : fs.devForced = true) (found : Option Buf) :
    fs.initFrom found =
      match fs.ataBoot fs.ch fs.dv fs.partLba with
      | none => (-7, fs.after (fs.bumpAt (.ata fs.ch fs.dv) 1) fs.tmp fs.log)
      | some boot => (if fits boot then 0 else -4,
          (fs.after (fs.bumpAt (.ata fs.ch fs.dv) 1) fs.tmp fs.log).loaded boot
            (.ata fs.ch fs.dv, fs.partLba)) := by
  unfold initFrom ataBoot
  rw [if_pos hforced, ideRd_eq]
  dsimp only
  by_cases hf : fs.disks.media.faults (.ata fs.ch fs.dv)
      (fs.disks.media.issued (.ata fs.ch fs.dv)) = none
  · rw [if_pos hf]
    dsimp only
    rw [isExfat_blit]
    by_cases hex : isExfat (fs.disks.media.sector (.ata fs.ch fs.dv) (lba28 fs.partLba)) = true
    · rw [if_pos hex, if_pos ⟨hf, hex⟩, loadBoot_eq, decodeBoot_blit]
      rfl
    · rw [if_neg hex, if_neg fun hall => hex hall.2]
  · rw [if_neg hf, if_neg fun hall => hf hall.1]

theorem initFrom_found {fs : Exfat} (hforced : ¬ fs.devForced = true) (sec : Buf) :
    fs.initFrom (some (blit fs.stack 0 sec 512)) =
      (if fits (decodeBoot sec) then 0 else -4,
        fs.loaded (decodeBoot sec) (.nvme, fs.partLba)) := by
  rw [initFrom, if_neg hforced, loadBoot_eq, decodeBoot_blit]

theorem bumpAt_ata (fs : Exfat) (ch dv k : Nat) :
    fs.bumpAt (.ata ch dv) k .nvme = fs.disks.media.issued .nvme :=
  Function.update_of_ne (by simp) ..

/-- One round of the probing loops finds nothing, or moves to a volume it has found. -/
theorem probeAt_cases (fs : Exfat) (ch dv : Nat) :
    ∃ n, n .nvme = fs.disks.media.issued .nvme ∧
      (fs.probeAt ch dv = (none, fs.after n fs.tmp fs.log) ∨
      ∃ pl, isExfat (fs.disks.media.sector (.ata ch dv) (lba28 pl)) = true ∧
        fs.probeAt ch dv =
          (some (blit fs.stack 0 (fs.disks.media.sector (.ata ch dv) (lba28 pl)) 512),
            (fs.after n fs.tmp fs.log).moved ch dv pl)) := by
  have hnvme : ((fs.after (fs.bumpAt (.ata ch dv) 1) fs.tmp fs.log).bumpAt (.ata ch dv) 1) .nvme =
      fs.disks.media.issued .nvme := by
    rw [bumpAt_ata]
    exact fs.bumpAt_ata ch dv 1
  unfold probeAt
  rw [ideRd_eq]
  split
  · rename_i hnone
    obtain ⟨-, rfl⟩ := Prod.mk.inj hnone
    exact ⟨_, fs.bumpAt_ata ch dv 1, .inl rfl⟩
  · rename_i mbr fs1 hsome
    obtain ⟨hmbr, rfl⟩ := Prod.mk.inj hsome
    dsimp only
    split
    · rw [ideRd_eq]
      split
      · rename_i hnone
        obtain ⟨-, rfl⟩ := Prod.mk.inj hnone
        exact ⟨_, hnvme, .inl rfl⟩
      · rename_i buf fs2 hread
        obtain ⟨hbuf, rfl⟩ := Prod.mk.inj hread
        split at hbuf
        · obtain rfl := Option.some.inj hbuf
          split
          · rename_i hex
            exact ⟨_, hnvme, .inr ⟨_, (isExfat_blit _ _).symm.trans hex, rfl⟩⟩
          · exact ⟨_, hnvme, .inl rfl⟩
        · cases hbuf
    · exact ⟨_, fs.bumpAt_ata ch dv 1, .inl rfl⟩

theorem probeAta_cases (fs : Exfat) (positions : List (Nat × Nat)) :
    ∃ n, n .nvme = fs.disks.media.issued .nvme ∧
      (probeAta positions fs = (none, fs.after n fs.tmp fs.log) ∨
      ∃ ch dv pl, isExfat (fs.disks.media.sector (.ata ch dv) (lba28 pl)) = true ∧
        probeAta positions fs =
          (some (blit fs.stack 0 (fs.disks.media.sector (.ata ch dv) (lba28 pl)) 512),
            (fs.after n fs.tmp fs.log).moved ch dv pl)) := by
  induction positions generalizing fs with
  | nil => exact ⟨fs.disks.media.issued, rfl, .inl rfl⟩
  | cons position rest ih =>
    obtain ⟨ch, dv⟩ := position
    rw [probeAta]
    obtain ⟨n, hnvme, hn | ⟨pl, hex, hn⟩⟩ := fs.probeAt_cases ch dv
    · rw [hn]
      obtain ⟨n', hnvme', h⟩ := ih (fs.after n fs.tmp fs.log)
      exact ⟨n', hnvme'.trans hnvme, h⟩
    · rw [hn]
      exact ⟨n, hnvme, .inr ⟨ch, dv, pl, hex, rfl⟩⟩

/-- Without a ready controller nothing changes, or the geometry is that of an ATA volume the
state points to afterwards. -/
theorem exfatInit_ata {fs : Exfat} (hr : ¬ fs.disks.ready = true) :
    ∃ n, n .nvme = fs.disks.media.issued .nvme ∧
      (fs.exfatInit.2 = fs.after n fs.tmp fs.log ∨
      ∃ ch dv pl, isExfat (fs.disks.media.sector (.ata ch dv) (lba28 pl)) = true ∧
        fs.exfatInit.2 = ((fs.after n fs.tmp fs.log).moved ch dv pl).loaded
          (decodeBoot (fs.disks.media.sector (.ata ch dv) (lba28 pl))) (.ata ch dv, pl)) := by
  unfold exfatInit
  rw [if_neg hr]
  by_cases hforced : fs.devForced = true
  · refine ⟨fs.bumpAt (.ata fs.ch fs.dv) 1, fs.bumpAt_ata _ _ 1, ?_⟩
    rw [initFrom_forced hforced]
    split
    · exact .inl rfl
    · rename_i boot hboot
      obtain ⟨hex, rfl⟩ := ataBoot_some hboot
      exact .inr ⟨fs.ch, fs.dv, fs.partLba, hex, rfl⟩
  · rw [initFrom, if_neg hforced]
    obtain ⟨n, hnvme, hn | ⟨ch, dv, pl, hex, hn⟩⟩ :=
      fs.probeAta_cases [(0, 0), (0, 1), (1, 0), (1, 1)]
    · rw [hn]
      exact ⟨n, hnvme, .inl rfl⟩
    · rw [hn]
      refine ⟨n, hnvme, .inr ⟨ch, dv, pl, hex, ?_⟩⟩
      dsimp only
      rw [loadBoot_eq, decodeBoot_blit]
      rfl

/-! ### NVMe -/

/-- The start of the first partition of the NVMe disk, if the next two commands to it are
served and find an MBR and the boot sector of an exFAT volume. -/
def nvmeVolume (fs : Exfat) : Option Nat :=
  let mbr := fs.disks.media.sector .nvme 0
  let pl := firstPartition mbr
  let n := fs.disks.media.issued .nvme
  if fs.disks.queues = true ∧ fs.disks.media.faults .nvme n = none ∧ hasSignature mbr = true ∧
      pl ≠ 0 ∧ fs.disks.media.faults .nvme (n + 1) = none ∧
      isExfat (fs.disks.media.sector .nvme pl) = true then some pl else none

theorem nvmeVolume_eq_some {fs : Exfat} {pl : Nat} : fs.nvmeVolume = some pl ↔
    pl = firstPartition (fs.disks.media.sector .nvme 0) ∧ fs.disks.queues = true ∧
      fs.disks.media.faults .nvme (fs.disks.media.issued .nvme) = none ∧
      hasSignature (fs.disks.media.sector .nvme 0) = true ∧ pl ≠ 0 ∧
      fs.disks.media.faults .nvme (fs.disks.media.issued .nvme + 1) = none ∧
      isExfat (fs.disks.media.sector .nvme pl) = true := by
  unfold nvmeVolume
  dsimp only
  split
  · rename_i hall
    rw [Option.some.injEq]
    constructor
    · rintro rfl
      exact ⟨rfl, hall⟩
    · rintro ⟨rfl, -⟩
      rfl
  · rename_i hnot
    refine iff_of_false (by simp) ?_
    rintro ⟨rfl, hall⟩
    exact hnot hall

theorem nvmeVolume_spec {fs : Exfat} {pl : Nat} (h : fs.nvmeVolume = some pl) :
    isExfat (fs.disks.media.sector .nvme pl) = true :=
  (nvmeVolume_eq_some.mp h).2.2.2.2.2.2

theorem served_nvme {fs : Exfat} (hr : fs.disks.ready = true) (k : Nat) :
    fs.served (fs.issued + k) ↔ fs.disks.queues = true ∧
      fs.disks.media.faults .nvme (fs.disks.media.issued .nvme + k) = none := by
  unfold served online issued
  rw [dev_nvme hr]
  simp [hr]

theorem secRd_nvme {fs : Exfat} (hr : fs.disks.ready = true) (hq : fs.disks.queues = true)
    {k : Nat} (hf : fs.disks.media.faults .nvme (fs.disks.media.issued .nvme + k) = none)
    (log : List (Nat × Nat)) (lba : Nat) :
    (fs.after (fs.bump k) fs.tmp log).secRd lba 1 fs.stack 0 =
      (true, blit fs.stack 0 (fs.disks.media.sector .nvme lba) 512,
        fs.after (fs.bump (k + 1)) fs.tmp (log ++ [(lba, 1)])) := by
  have hs : (fs.after (fs.bump k) fs.tmp log).served (fs.after (fs.bump k) fs.tmp log).issued := by
    rw [after_served, after_issued, bump_dev]
    exact (served_nvme hr k).mpr ⟨hq, hf⟩
  have hsec : (fs.after (fs.bump k) fs.tmp log).sector lba = fs.disks.media.sector .nvme lba := by
    rw [after_sector, sector, addr_nvme hr, dev_nvme hr]
  rw [secRd_served hs, hsec, after_bump, after_after]
  rfl

theorem secRd_nvme_failed {fs : Exfat} (hr : fs.disks.ready = true) {k : Nat}
    (h : ¬ (fs.disks.queues = true ∧
      fs.disks.media.faults .nvme (fs.disks.media.issued .nvme + k) = none))
    (log : List (Nat × Nat)) (lba : Nat) :
    ∃ n log', (fs.after (fs.bump k) fs.tmp log).secRd lba 1 fs.stack 0 =
      (false, fs.stack, fs.after n fs.tmp log') := by
  have hs : ¬ (fs.after (fs.bump k) fs.tmp log).served (fs.after (fs.bump k) fs.tmp log).issued := by
    rw [after_served, after_issued, bump_dev]
    exact fun hs => h ((served_nvme hr k).mp hs)
  obtain ⟨n, hn⟩ := secRd_failed hs lba fs.stack 0
  exact ⟨n, _, hn⟩

theorem probeNvme_some {fs : Exfat} (hr : fs.disks.ready = true) {pl : Nat}
    (h : fs.nvmeVolume = some pl) :
    ∃ log, fs.probeNvme = (some (blit fs.stack 0 (fs.disks.media.sector .nvme pl) 512),
      (fs.after (fs.bump 2) fs.tmp log).moved 0 0 pl) := by
  obtain ⟨rfl, hq, h1, hsig, hpl, h2, hex⟩ := nvmeVolume_eq_some.mp h
  have hmbr := secRd_nvme (k := 0) hr hq h1 fs.log 0
  rw [after_self] at hmbr
  unfold probeNvme
  rw [hmbr]
  dsimp only
  rw [hasSignature_blit, firstPartition_blit, if_pos ⟨hsig, hpl⟩]
  have hboot := secRd_nvme hr hq h2 (fs.log ++ [(0, 1)])
    (firstPartition (fs.disks.media.sector .nvme 0))
  rw [show (fs.after (fs.bump (0 + 1)) fs.tmp (fs.log ++ [(0, 1)])).stack = fs.stack from rfl, hboot]
  dsimp only
  rw [isExfat_blit, if_pos hex]
  exact ⟨_, rfl⟩

theorem probeNvme_none {fs : Exfat} (hr : fs.disks.ready = true) (h : fs.nvmeVolume = none) :
    ∃ n log, fs.probeNvme = (none, fs.after n fs.tmp log) := by
  unfold probeNvme
  by_cases h1 : fs.disks.queues = true ∧
      fs.disks.media.faults .nvme (fs.disks.media.issued .nvme + 0) = none
  · have hmbr := secRd_nvme hr h1.1 h1.2 fs.log 0
    rw [after_self] at hmbr
    rw [hmbr]
    dsimp only
    rw [hasSignature_blit, firstPartition_blit]
    split
    · rename_i hpl
      rw [show (fs.after (fs.bump (0 + 1)) fs.tmp (fs.log ++ [(0, 1)])).stack = fs.stack from rfl]
      by_cases h2 : fs.disks.queues = true ∧
          fs.disks.media.faults .nvme (fs.disks.media.issued .nvme + (0 + 1)) = none
      · rw [secRd_nvme hr h2.1 h2.2]
        dsimp only
        rw [isExfat_blit]
        split
        · rename_i hex
          have hvol := nvmeVolume_eq_some.mpr ⟨rfl, h1.1, h1.2, hpl.1, hpl.2, h2.2, hex⟩
          rw [hvol] at h
          cases h
        · exact ⟨_, _, rfl⟩
      · obtain ⟨n, log, hn⟩ := secRd_nvme_failed hr h2 (fs.log ++ [(0, 1)])
          (firstPartition (fs.disks.media.sector .nvme 0))
        rw [hn]
        exact ⟨n, log, rfl⟩
    · exact ⟨_, _, rfl⟩
  · obtain ⟨n, log, hn⟩ := secRd_nvme_failed hr h1 fs.log 0
    rw [after_self] at hn
    rw [hn]
    exact ⟨n, log, rfl⟩

theorem exfatInit_nvme_none {fs : Exfat} (hr : fs.disks.ready = true) (h : fs.nvmeVolume = none) :
    ∃ n log, fs.exfatInit = (-8, fs.after n fs.tmp log) := by
  obtain ⟨n, log, hn⟩ := probeNvme_none hr h
  refine ⟨n, log, ?_⟩
  rw [exfatInit, if_pos hr, hn]

theorem exfatInit_nvme {fs : Exfat} (hr : fs.disks.ready = true) (hforced : ¬ fs.devForced = true)
    {pl : Nat} (h : fs.nvmeVolume = some pl) :
    ∃ n log, fs.exfatInit =
      (if fits (decodeBoot (fs.disks.media.sector .nvme pl)) then 0 else -4,
        ((fs.after n fs.tmp log).moved 0 0 pl).loaded
          (decodeBoot (fs.disks.media.sector .nvme pl)) (.nvme, pl)) := by
  obtain ⟨log, hlog⟩ := probeNvme_some hr h
  refine ⟨fs.bump 2, log, ?_⟩
  rw [exfatInit, if_pos hr, hlog]
  exact @initFrom_found ((fs.after (fs.bump 2) fs.tmp log).moved 0 0 pl) hforced _

/-- A volume on the NVMe disk, and a forced position: the sector of that number on the
primary master decides. -/
theorem exfatInit_nvme_forced {fs : Exfat} (hr : fs.disks.ready = true)
    (hforced : fs.devForced = true) {pl : Nat} (h : fs.nvmeVolume = some pl) :
    ∃ n log, fs.exfatInit.2 =
      match fs.ataBoot 0 0 pl with
      | none => (fs.after n fs.tmp log).moved 0 0 pl
      | some boot => ((fs.after n fs.tmp log).moved 0 0 pl).loaded boot (.ata 0 0, pl) := by
  obtain ⟨log, hlog⟩ := probeNvme_some hr h
  have hboot : ((fs.after (fs.bump 2) fs.tmp log).moved 0 0 pl).ataBoot 0 0 pl =
      fs.ataBoot 0 0 pl := by
    have hissued : ((fs.after (fs.bump 2) fs.tmp log).moved 0 0 pl).disks.media.issued (.ata 0 0) =
        fs.disks.media.issued (.ata 0 0) := by
      change fs.bump 2 (.ata 0 0) = _
      rw [bump, dev_nvme hr]
      exact Function.update_of_ne (by simp) ..
    unfold ataBoot
    rw [hissued]
    rfl
  refine ⟨((fs.after (fs.bump 2) fs.tmp log).moved 0 0 pl).bumpAt (.ata 0 0) 1, log, ?_⟩
  rw [exfatInit, if_pos hr, hlog]
  have hinit := @initFrom_forced ((fs.after (fs.bump 2) fs.tmp log).moved 0 0 pl) hforced
    (some (blit fs.stack 0 (fs.disks.media.sector .nvme pl) 512))
  refine (congrArg Prod.snd hinit).trans ?_
  change (match ((fs.after (fs.bump 2) fs.tmp log).moved 0 0 pl).ataBoot 0 0 pl with
    | none => _
    | some boot => _ : Int × Exfat).2 = _
  rw [hboot]
  cases fs.ataBoot 0 0 pl <;> rfl

/-! ### What a successful call leaves -/

/-- The state comes from one with a device that takes commands, by the geometry of a boot sector
whose clusters fit. -/
def FreshlyLoaded (fs : Exfat) : Prop :=
  ∃ gs boot src, gs.online = true ∧ fits boot = true ∧ fs = loaded gs boot src

theorem loadBoot_freshlyLoaded {fs : Exfat} (hon : fs.online = true) {buf : Buf} {src : Dev × Nat}
    (h : (fs.loadBoot buf src).1 = 0) : FreshlyLoaded (fs.loadBoot buf src).2 := by
  rw [loadBoot_eq] at h ⊢
  refine ⟨fs, decodeBoot buf, src, hon, ?_, rfl⟩
  by_contra hfits
  rw [if_neg hfits] at h
  exact absurd h (show ¬ (-4 : Int) = 0 by decide)

theorem initFrom_freshlyLoaded {fs : Exfat} (hon : fs.online = true) {found : Option Buf}
    (h : (fs.initFrom found).1 = 0) : FreshlyLoaded (fs.initFrom found).2 := by
  unfold initFrom at h ⊢
  by_cases hforced : fs.devForced = true
  · rw [if_pos hforced] at h ⊢
    rw [ideRd_eq] at h ⊢
    split at h
    · exact absurd h (show ¬ (-7 : Int) = 0 by decide)
    · rename_i buf gs hread
      obtain ⟨-, rfl⟩ := Prod.mk.inj hread
      split at h
      · rename_i hex
        rw [if_pos hex]
        exact @loadBoot_freshlyLoaded (fs.after (fs.bumpAt (.ata fs.ch fs.dv) 1) fs.tmp fs.log) hon
          _ _ h
      · exact absurd h (show ¬ (-7 : Int) = 0 by decide)
  · rw [if_neg hforced] at h ⊢
    cases found with
    | some buf => exact loadBoot_freshlyLoaded hon h
    | none =>
      obtain ⟨n, -, hn | ⟨ch, dv, pl, -, hn⟩⟩ :=
        fs.probeAta_cases [(0, 0), (0, 1), (1, 0), (1, 1)]
      · dsimp only at h
        rw [hn] at h
        exact absurd h (show ¬ (-8 : Int) = 0 by decide)
      · dsimp only at h ⊢
        rw [hn] at h ⊢
        exact @loadBoot_freshlyLoaded ((fs.after n fs.tmp fs.log).moved ch dv pl) hon _ _ h

theorem exfatInit_freshlyLoaded {fs : Exfat} (h : fs.exfatInit.1 = 0) :
    FreshlyLoaded fs.exfatInit.2 := by
  by_cases hr : fs.disks.ready = true
  · cases hvol : fs.nvmeVolume with
    | none =>
      obtain ⟨n, log, hn⟩ := exfatInit_nvme_none hr hvol
      rw [hn] at h
      exact absurd h (show ¬ (-8 : Int) = 0 by decide)
    | some pl =>
      obtain ⟨log, hlog⟩ := probeNvme_some hr hvol
      have hq := (nvmeVolume_eq_some.mp hvol).2.1
      unfold exfatInit at h ⊢
      rw [if_pos hr, hlog] at h ⊢
      exact @initFrom_freshlyLoaded ((fs.after (fs.bump 2) fs.tmp log).moved 0 0 pl)
        (show (!fs.disks.ready || fs.disks.queues) = true by rw [hq, Bool.or_true]) _ h
  · unfold exfatInit at h ⊢
    rw [if_neg hr] at h ⊢
    exact initFrom_freshlyLoaded (by simp [online, hr]) h

end Exfat

end WinDOS
