import WinDOS.Fs.Mount
import WinDOS.Tools.Memdisk

/-!
# The image and the driver of the kernel

The builder leaves the last two bytes of the boot sector zero; `exfat_init` takes a sector
without `55 AA` for no exFAT boot sector.
-/

set_option autoImplicit false

namespace WinDOS

open Bytes

namespace Memdisk

open Blob Exfat

theorem bpb_unsigned {clusterCount volSectors : Nat} {b : Blob}
    (h : bpb clusterCount volSectors = some b) : b.data 510 = 0 := by
  obtain ⟨b1, h1, h⟩ := bind_some_iff.mp h
  obtain ⟨b2, h2, h⟩ := bind_some_iff.mp h
  obtain ⟨b3, h3, h⟩ := bind_some_iff.mp h
  obtain ⟨b4, h4, h⟩ := bind_some_iff.mp h
  obtain ⟨b5, h5, h⟩ := bind_some_iff.mp h
  obtain ⟨b6, h6, h⟩ := bind_some_iff.mp h
  obtain ⟨b7, h7, h⟩ := bind_some_iff.mp h
  obtain ⟨b8, h8, h⟩ := bind_some_iff.mp h
  obtain ⟨b9, h9, h⟩ := bind_some_iff.mp h
  obtain ⟨b10, h10, h⟩ := bind_some_iff.mp h
  obtain ⟨b11, h11, h⟩ := bind_some_iff.mp h
  obtain ⟨b12, h12, h⟩ := bind_some_iff.mp h
  obtain ⟨b13, h13, h⟩ := bind_some_iff.mp h
  have hlbl : lbl.length = 12 := rfl
  have hjump : ([0xeb, 0x76, 0x90] : List Byte).length = 3 := rfl
  have hname : ([0x45, 0x58, 0x46, 0x41, 0x54, 0x20, 0x20, 0x20] : List Byte).length = 8 := rfl
  rw [(put_eq_some h).1.2 _ (by omega), (paste_eq_some h13).1.2 _ (by omega),
    (put_eq_some h12).1.2 _ (by omega), (put_eq_some h11).1.2 _ (by omega),
    (pack_eq_some h10).1.2 _ (by omega), (pack_eq_some h9).1.2 _ (by omega),
    (pack_eq_some h8).1.2 _ (by omega), (pack_eq_some h7).1.2 _ (by omega),
    (pack_eq_some h6).1.2 _ (by omega), (pack_eq_some h5).1.2 _ (by omega),
    (pack_eq_some h4).1.2 _ (by omega), (pack_eq_some h3).1.2 _ (by omega),
    (paste_eq_some h2).1.2 _ (by omega), (paste_eq_some h1).1.2 _ (by omega)]
  rfl

/-- Every disk that answers holds the image, and a position the loader hands over is that of the
image's partition. -/
structure Holds (fs : Exfat) (img : Blob) : Prop where
  data : ∀ d, ∀ i < img.size, fs.disks.media.data d i = img.data i
  forced : fs.devForced = true → fs.partLba = PART_LBA

/-- The driver reads the image as the loader does. -/
def DriverAgrees (fs : Exfat) (img : Blob) : Prop :=
  fs.exfatInit.1 = 0 ∧ fs.exfatInit.2.bps = 512 ∧ fs.exfatInit.2.bpc = 512 ∧
    ∀ b : Slice, Loaded b img → ∀ p len, exfatFindKern b = .ok (p, len) →
      ∃ fi, (fs.exfatInit.2.exfatFind fs.exfatInit.2.boot.rootDirCluster
          (kernelName.map fun c => BitVec.ofNat 8 c.toNat)).1 = some fi ∧
        b.base + fs.exfatInit.2.clusterToLba fi.firstCluster * 512 = p ∧ fi.dataLen = len

section Init

variable {kern : List Byte} {img : Blob} {fs : Exfat} (hl : Layout img kern) (hd : Holds fs img)
include hl hd

/-- The first two sectors the driver looks at. -/
theorem Layout.sectors (d : Dev) :
    firstPartition (fs.disks.media.sector d 0) = PART_LBA ∧
      isExfat (fs.disks.media.sector d PART_LBA) = false := by
  obtain ⟨_, m, hm, hmi⟩ := hl.mbr
  obtain ⟨_, _, p, hp, hpi⟩ := hl.bpb
  obtain ⟨hmsize, hlba, -, -⟩ := mbr_spec hm
  obtain ⟨hpsize, -, -, -⟩ := bpb_spec hp
  have hmin := hmi.1
  have hpin := hpi.1
  constructor
  · refine (le_congr fun i h0 h1 => ?_).trans hlba
    have hi := hmi.2 i (by omega)
    rw [Nat.zero_add] at hi
    rw [Media.sector, from_, Nat.zero_mul, Nat.zero_add, hd.data d i (by omega), hi]
  · have hlast : fs.disks.media.sector d PART_LBA 510 = 0 := by
      have hsector : fs.disks.media.sector d PART_LBA 510 = fs.disks.media.data d (65536 + 510) :=
        rfl
      rw [hsector, hd.data d _ (by omega), hpi.2 510 (by omega)]
      exact bpb_unsigned hp
    unfold isExfat hasSignature
    rw [hlast]
    simp

theorem Layout.probeAt_none (ch dv : Nat) :
    ∃ n, fs.probeAt ch dv = (none, fs.after n fs.tmp fs.log) := by
  obtain ⟨hpart, hno⟩ := hl.sectors hd (.ata ch dv)
  unfold probeAt
  rw [ideRd_eq]
  by_cases hf : fs.disks.media.faults (.ata ch dv) (fs.disks.media.issued (.ata ch dv)) = none
  · rw [if_pos hf]
    dsimp only
    rw [hasSignature_blit, firstPartition_blit, show lba28 0 = 0 from rfl, hpart]
    split
    · rw [ideRd_eq]
      split
      · rename_i hnone
        obtain ⟨-, rfl⟩ := Prod.mk.inj hnone
        exact ⟨_, rfl⟩
      · rename_i buf fs2 hread
        obtain ⟨hbuf, rfl⟩ := Prod.mk.inj hread
        split at hbuf
        · obtain rfl := Option.some.inj hbuf
          rw [isExfat_blit]
          change ∃ n, (if isExfat (fs.disks.media.sector (.ata ch dv) PART_LBA) = true then _
            else _) = _
          rw [hno]
          exact ⟨_, rfl⟩
        · cases hbuf
    · exact ⟨_, rfl⟩
  · rw [if_neg hf]
    exact ⟨_, rfl⟩

end Init

theorem probeAta_none {kern : List Byte} {img : Blob} (hl : Layout img kern)
    (positions : List (Nat × Nat)) {fs : Exfat} (hd : Holds fs img) :
    ∃ n, probeAta positions fs = (none, fs.after n fs.tmp fs.log) := by
  induction positions generalizing fs with
  | nil => exact ⟨fs.disks.media.issued, rfl⟩
  | cons position rest ih =>
    obtain ⟨ch, dv⟩ := position
    obtain ⟨n, hn⟩ := hl.probeAt_none hd ch dv
    obtain ⟨n', hn'⟩ := @ih (fs.after n fs.tmp fs.log) ⟨hd.data, hd.forced⟩
    rw [probeAta, hn]
    exact ⟨n', hn'⟩

/-- `exfat_init` finds no volume on the image. -/
theorem exfatInit_rejects {kern : List Byte} {img : Blob} (hl : Layout img kern) {fs : Exfat}
    (hd : Holds fs img) : fs.exfatInit.1 = -8 ∨ fs.exfatInit.1 = -7 := by
  by_cases hr : fs.disks.ready = true
  · obtain ⟨hpart, hno⟩ := hl.sectors hd .nvme
    have hnone : fs.nvmeVolume = none := by
      rw [Option.eq_none_iff_forall_not_mem]
      intro pl hpl
      obtain ⟨rfl, -, -, -, -, -, hex⟩ := nvmeVolume_eq_some.mp hpl
      rw [hpart, hno] at hex
      cases hex
    obtain ⟨n, log, h⟩ := exfatInit_nvme_none hr hnone
    exact .inl (congrArg Prod.fst h)
  · rw [exfatInit, if_neg hr]
    by_cases hforced : fs.devForced = true
    · have hboot : fs.ataBoot fs.ch fs.dv fs.partLba = none := by
        rw [Option.eq_none_iff_forall_not_mem]
        intro boot hb
        obtain ⟨hex, -⟩ := ataBoot_some hb
        rw [hd.forced hforced, show lba28 PART_LBA = PART_LBA from rfl,
          (hl.sectors hd _).2] at hex
        cases hex
      rw [initFrom_forced hforced, hboot]
      exact .inr rfl
    · obtain ⟨n, hn⟩ := probeAta_none hl [(0, 0), (0, 1), (1, 0), (1, 1)] hd
      rw [initFrom, if_neg hforced, hn]
      exact .inl rfl

/-- Whatever the kernel, its image is no volume for the driver. -/
theorem driver_never_agrees {kern : List Byte} {img : Blob} (hbuild : build kern = some img)
    {fs : Exfat} (hd : Holds fs img) : fs.exfatInit.1 < 0 ∧ ¬ DriverAgrees fs img := by
  have hneg : fs.exfatInit.1 < 0 := by
    rcases exfatInit_rejects (build_layout hbuild) hd with h | h <;> rw [h] <;> decide
  exact ⟨hneg, fun h => absurd h.1 (Int.ne_of_lt hneg)⟩

/-- An NVMe disk with the image. -/
def imageDisk (img : Blob) : Exfat where
  disks := ⟨⟨fun _ => img.data, fun _ _ => none, fun _ => 0⟩, true, true⟩
  boot := ⟨0, 0, 0, 0, 0, 0, 0, 0, 0, 0, 0⟩
  ok := false
  bps := 0
  spc := 0
  bpc := 0
  tmp := fun _ => 0
  partLba := 0
  ch := 0
  dv := 0
  devForced := false
  stack := fun _ => 0
  log := []
  bootFrom := none

theorem holds_imageDisk (img : Blob) : Holds (imageDisk img) img :=
  ⟨fun _ _ _ => rfl, fun h => nomatch h⟩

theorem driver_never_agrees_one :
    ∃ img, build [0x90] = some img ∧ (imageDisk img).exfatInit.1 < 0 := by
  obtain ⟨img, hbuild, -⟩ := @build_some [0x90] (by decide)
  exact ⟨img, hbuild, (driver_never_agrees hbuild (holds_imageDisk img)).1⟩

/-- The image of a kernel of one byte. -/
theorem image_not_mounted :
    ¬ ∀ img, build [0x90] = some img → DriverAgrees (imageDisk img) img := by
  intro h
  obtain ⟨img, hbuild, -⟩ := @build_some [0x90] (by decide)
  have hzero := (h img hbuild).1
  rcases exfatInit_rejects (build_layout hbuild) (holds_imageDisk img) with hc | hc <;>
    rw [hc] at hzero <;> cases hzero

end Memdisk

end WinDOS
