import WinDOS.Fs.Geometry
import WinDOS.Fs.ReadFile
import WinDOS.Fs.Requests

/-!
# Which geometries `exfat_init` accepts

`exfat_init` refuses clusters of more than 8192 bytes. Everything else it takes as the boot sector
gives it, while a sector of the block layer has 512 bytes and the cluster size is a 32-bit product.
-/

set_option autoImplicit false

namespace WinDOS

open Bytes

namespace Exfat

def withDisks (fs : Exfat) (d : Disks) : Exfat := { fs with disks := d }

/-- The driver can handle the geometry, whatever the disks hold and whichever commands fail. -/
structure Handles (fs : Exfat) : Prop where
  product : fs.bpc = fs.bps * fs.spc
  multiple : 512 ∣ fs.bpc
  low : 512 ≤ fs.bpc
  high : fs.bpc ≤ TMP_SIZE
  fills : ∀ d c buf, ((fs.withDisks d).readCluster c buf).1 = true →
    ((fs.withDisks d).readCluster c buf).2.1 =
      blit buf 0 ((fs.withDisks d).clusterBytes c) fs.bpc
  inside : ∀ d c buf i, fs.bpc ≤ i → ((fs.withDisks d).readCluster c buf).2.1 i = buf i
  ends : ∀ d first size buf, ((fs.withDisks d).exfatReadFile first size buf).isSome = true

/-! ### Sectors of 512 bytes -/

theorem readSectors_outside {fs : Exfat} (hbps : fs.bps = 512) (lba n i : Nat) (buf : Buf) {j : Nat}
    (hj : (i + n) * 512 ≤ j) : (readSectors lba fs n i buf).2.1 j = buf j := by
  induction n generalizing fs i buf with
  | zero => rfl
  | succ n ih =>
    rw [readSectors]
    by_cases hnow : fs.served fs.issued
    · have hfirst : i * fs.bps + 512 ≤ j := by
        rw [hbps]
        omega
      have hrest : (i + 1 + n) * 512 ≤ j := by rwa [show i + 1 + n = i + (n + 1) by omega]
      rw [secRd_served hnow]
      exact (@ih (fs.after (fs.bump 1) fs.tmp (fs.log ++ [(wrap32 (lba + i), 1)])) hbps (i + 1)
        (blit buf (i * fs.bps) (fs.sector (wrap32 (lba + i))) 512) hrest).trans (blit_above hfirst)
    · obtain ⟨m, hm⟩ := secRd_failed hnow (wrap32 (lba + i)) buf (i * fs.bps)
      rw [hm]

theorem SectorVolume.handles {fs : Exfat} (hv : SectorVolume fs) (hspc : fs.spc ≤ 16) :
    Handles fs := by
  have hbpc := hv.bpc
  have hpos := hv.spc
  have hgs : ∀ d, SectorVolume (fs.withDisks d) := fun d => ⟨hv.ok, hv.bps, hv.spc, hv.bpc⟩
  refine ⟨?_, ⟨fs.spc, hbpc⟩, by omega, show fs.bpc ≤ 8192 by omega, fun d c buf hok => ?_,
    fun d c buf i hi => ?_,
    fun d first size buf => ?_⟩
  · rw [hv.bps, hbpc]
  · by_cases hserved : ∀ j < fs.spc, (fs.withDisks d).served ((fs.withDisks d).issued + j)
    · obtain ⟨log, hread⟩ := @readCluster_served (fs.withDisks d) hv.bps hserved c buf
      rw [hread, hbpc, Nat.mul_comm]
      rfl
    · obtain ⟨buf', m, log, hread⟩ := @readCluster_failed (fs.withDisks d) hserved c buf
      rw [hread] at hok
      cases hok
  · exact @readSectors_outside (fs.withDisks d) hv.bps _ fs.spc 0 buf i (by omega)
  · obtain ⟨good, code, gs, hrun, -⟩ := (hgs d).readLoop_ends (Nat.le_refl size) 0 buf (c := first)
    rw [exfatReadFile, if_pos (hgs d).ok, hrun]
    rfl

/-! ### Other sectors -/

/-- Disks full of ones whose commands are all served. -/
def ones : Disks := ⟨⟨fun _ _ => 1, fun _ _ => none, fun _ => 0⟩, false, false⟩

section Ones

variable {fs : Exfat}

theorem sectorsInto_keep (lba n i : Nat) {buf : Buf} {j : Nat} (h : buf j = 1) :
    (fs.withDisks ones).sectorsInto lba n i buf j = 1 := by
  induction n generalizing i buf with
  | zero => exact h
  | succ n ih =>
    refine ih (i + 1) ?_
    unfold blit
    split
    · rfl
    · exact h

theorem sectorsInto_in {lba n i k : Nat} (hk : k < n) {buf : Buf} {j : Nat}
    (h0 : (i + k) * fs.bps ≤ j) (h1 : j < (i + k) * fs.bps + 512) :
    (fs.withDisks ones).sectorsInto lba n i buf j = 1 := by
  induction n generalizing i k buf with
  | zero => omega
  | succ n ih =>
    rw [sectorsInto]
    cases k with
    | zero => exact sectorsInto_keep lba n (i + 1) (blit_in h0 h1)
    | succ k =>
      refine @ih (i + 1) k (by omega) _ ?_ ?_ <;> rwa [show i + 1 + k = i + (k + 1) by omega]

theorem sectorsInto_out {lba n i : Nat} {buf : Buf} {j : Nat}
    (h : ∀ k < n, j < (i + k) * fs.bps ∨ (i + k) * fs.bps + 512 ≤ j) :
    (fs.withDisks ones).sectorsInto lba n i buf j = buf j := by
  induction n generalizing i buf with
  | zero => rfl
  | succ n ih =>
    rw [sectorsInto, ih fun k hk => by
      rw [show i + 1 + k = i + (k + 1) by omega]
      exact h (k + 1) (by omega)]
    exact (h 0 (by omega)).elim (fun hlt => blit_below hlt) fun hle => blit_above hle

theorem readCluster_ones (c : Nat) (buf : Buf) :
    ((fs.withDisks ones).readCluster c buf).1 = true ∧
      ((fs.withDisks ones).readCluster c buf).2.1 = (fs.withDisks ones).clusterInto c buf := by
  obtain ⟨ok, buf', m, log, hrun, hinto, hok, -⟩ :=
    @readCluster_asks (fun _ => True) (fs.withDisks ones) c buf
  have hok := hok fun _ => ⟨rfl, rfl⟩
  rw [hrun]
  exact ⟨hok, hinto hok⟩

/-- Shorter sectors reach behind the cluster, longer ones leave gaps in it. -/
theorem Handles.bps_eq (h : Handles fs) : fs.bps = 512 := by
  have hproduct := h.product
  have hlow := h.low
  have hspc : 0 < fs.spc := Nat.pos_of_ne_zero fun h0 => by
    rw [h0, Nat.mul_zero] at hproduct
    omega
  obtain ⟨n, hn⟩ : ∃ n, fs.spc = n + 1 := ⟨fs.spc - 1, by omega⟩
  rw [hn, Nat.mul_succ, Nat.mul_comm] at hproduct
  have hspc' : (fs.withDisks ones).spc = n + 1 := hn
  rcases Nat.lt_trichotomy fs.bps 512 with hlt | heq | hgt
  · have hin := h.inside ones 2 (fun _ => 0) fs.bpc (Nat.le_refl _)
    rw [(readCluster_ones 2 _).2, clusterInto, hspc', @sectorsInto_in fs _ (n + 1) 0 n (by omega) _
      fs.bpc (by rw [Nat.zero_add]; omega) (by rw [Nat.zero_add]; omega)] at hin
    cases hin
  · exact heq
  · have hfill := congrFun (h.fills ones 2 (fun _ => 0) (readCluster_ones 2 _).1) 512
    rw [(readCluster_ones 2 _).2, clusterInto, sectorsInto_out fun k _ => ?_,
      blit_in (by omega) (by omega)] at hfill
    · cases hfill
    · rw [Nat.zero_add]
      cases k with
      | zero => exact .inr (by omega)
      | succ k =>
        refine .inl ?_
        rw [Nat.succ_mul]
        omega

theorem Handles.spc_le (h : Handles fs) : fs.spc ≤ 16 := by
  have hproduct := h.product
  have hhigh : fs.bpc ≤ 8192 := h.high
  rw [h.bps_eq] at hproduct
  omega

end Ones

/-! ### Mounting -/

/-- A call that returns 0 takes the geometry from a boot sector of one of the disks. -/
def LoadsFrom (fs : Exfat) (r : Int × Exfat) : Prop :=
  ∃ src gs, isExfat (fs.sourceSector src) = true ∧ fits (decodeBoot (fs.sourceSector src)) = true ∧
    r.2 = Exfat.loaded gs (decodeBoot (fs.sourceSector src)) src

theorem fits_of_zero {boot : ExfatBoot} (h : (if fits boot then (0 : Int) else -4) = 0) :
    fits boot = true := by
  by_contra hnot
  rw [if_neg hnot] at h
  cases h

theorem initFrom_forced_loads {fs : Exfat} (hforced : fs.devForced = true) {found : Option Buf}
    (h : (fs.initFrom found).1 = 0) : fs.LoadsFrom (fs.initFrom found) := by
  rw [initFrom_forced hforced] at h ⊢
  cases hboot : fs.ataBoot fs.ch fs.dv fs.partLba with
  | none =>
    rw [hboot] at h
    cases h
  | some boot =>
    rw [hboot] at h
    obtain ⟨hex, rfl⟩ := ataBoot_some hboot
    exact ⟨(.ata fs.ch fs.dv, fs.partLba), _, hex, fits_of_zero h, rfl⟩

theorem exfatInit_loads {fs : Exfat} (h : fs.exfatInit.1 = 0) : fs.LoadsFrom fs.exfatInit := by
  by_cases hr : fs.disks.ready = true
  · cases hvol : fs.nvmeVolume with
    | none =>
      obtain ⟨n, log, hn⟩ := exfatInit_nvme_none hr hvol
      rw [hn] at h
      cases h
    | some pl =>
      by_cases hforced : fs.devForced = true
      · obtain ⟨log, hlog⟩ := probeNvme_some hr hvol
        rw [exfatInit, if_pos hr, hlog] at h ⊢
        exact @initFrom_forced_loads ((fs.after (fs.bump 2) fs.tmp log).moved 0 0 pl) hforced _ h
      · obtain ⟨n, log, hn⟩ := exfatInit_nvme hr hforced hvol
        rw [hn] at h ⊢
        exact ⟨(.nvme, pl), _, nvmeVolume_spec hvol, fits_of_zero h, rfl⟩
  · rw [exfatInit, if_neg hr] at h ⊢
    by_cases hforced : fs.devForced = true
    · exact initFrom_forced_loads hforced h
    · rw [initFrom, if_neg hforced] at h ⊢
      obtain ⟨n, -, hn | ⟨ch, dv, pl, hex, hn⟩⟩ :=
        fs.probeAta_cases [(0, 0), (0, 1), (1, 0), (1, 1)]
      · rw [hn] at h
        cases h
      · rw [hn] at h ⊢
        dsimp only at h ⊢
        rw [loadBoot_eq, decodeBoot_blit] at h ⊢
        exact ⟨(.ata ch dv, pl), _, hex, fits_of_zero h, rfl⟩

theorem shl1_eq_512 {shift : Nat} : shl1 shift = 512 ↔ shift % 32 = 9 := by
  constructor
  · exact fun h => Nat.pow_right_injective (Nat.le_refl 2) (h.trans (by decide : 512 = 2 ^ 9))
  · exact fun h => (congrArg (fun k => 2 ^ k) h).trans (by decide : 2 ^ 9 = 512)

theorem shl1_le_16 {shift : Nat} : shl1 shift ≤ 16 ↔ shift % 32 ≤ 4 :=
  Nat.pow_le_pow_iff_right (Nat.lt_succ_self 1) (m := 4)

theorem loaded_handles_iff (fs : Exfat) {boot : ExfatBoot} (hfits : fits boot = true) (src : Dev × Nat) :
    Handles (fs.loaded boot src) ↔ boot.bpsShift % 32 = 9 ∧ boot.spcShift % 32 ≤ 4 := by
  constructor
  · exact fun h => ⟨shl1_eq_512.mp h.bps_eq, shl1_le_16.mp h.spc_le⟩
  · rintro ⟨hbps, hspc⟩
    have hbps := shl1_eq_512.mpr hbps
    have hspc := shl1_le_16.mpr hspc
    refine SectorVolume.handles ⟨?_, hbps, Nat.two_pow_pos _, ?_⟩ hspc
    · change (fs.ok || fits boot) = true
      rw [hfits, Bool.or_true]
    · change wrap32 (shl1 boot.bpsShift * shl1 boot.spcShift) = 512 * shl1 boot.spcShift
      rw [hbps, wrap32, Nat.mod_eq_of_lt (by omega)]

/-- The driver can handle the geometry that it has accepted exactly if the boot sector says 512
bytes for a sector and at most 16 sectors for a cluster. -/
theorem accepted_geometry_iff {fs : Exfat} (h : fs.exfatInit.1 = 0) :
    ∃ src, fs.exfatInit.2.bootFrom = some src ∧ isExfat (fs.sourceSector src) = true ∧
      (Handles fs.exfatInit.2 ↔ (fs.sourceSector src 0x6C).toNat % 32 = 9 ∧
        (fs.sourceSector src 0x6D).toNat % 32 ≤ 4) := by
  obtain ⟨src, gs, hex, hfits, hloaded⟩ := exfatInit_loads h
  refine ⟨src, by rw [hloaded]; rfl, hex, ?_⟩
  rw [hloaded]
  exact loaded_handles_iff gs hfits src

theorem accepted_geometry_twoDisks :
    ∃ src, twoDisks.exfatInit.2.bootFrom = some src ∧ isExfat (twoDisks.sourceSector src) = true ∧
      (Handles twoDisks.exfatInit.2 ↔ (twoDisks.sourceSector src 0x6C).toNat % 32 = 9 ∧
        (twoDisks.sourceSector src 0x6D).toNat % 32 ≤ 4) :=
  accepted_geometry_iff (by decide +kernel)

/-- The disks of `twoDisks`, but the volume has sectors of 4096 bytes and clusters of one sector. -/
def bigSectors : Exfat :=
  { twoDisks with
    disks := { twoDisks.disks with
      media := { twoDisks.disks.media with
        data := fun d => Function.update
          (Function.update (twoDisks.disks.media.data d) 32876 12) 32877 0 } } }

/-- Of each sector the driver reads the first 512 bytes. -/
theorem big_sectors_accepted : bigSectors.exfatInit.1 = 0 ∧ ¬ Handles bigSectors.exfatInit.2 := by
  refine ⟨by decide +kernel, fun h => ?_⟩
  have hbps : bigSectors.exfatInit.2.bps = 4096 := by decide +kernel
  have := hbps.symm.trans h.bps_eq
  omega

end Exfat

end WinDOS
