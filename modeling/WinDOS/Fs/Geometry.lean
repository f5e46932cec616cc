import WinDOS.Fs.Mount
import Mathlib.Logic.Relation

/-!
# One disk's geometry on another disk

The transport is chosen at every sector access, the geometry at the last mount. The field
`bootFrom` records where the geometry came from; the steps that separate it from the
addressed device are named by `DiskOp.Safe`, and every run of other steps keeps the two
together.
-/

set_option autoImplicit false

namespace WinDOS

open Bytes

namespace Exfat

/-- A call that can change the device or the geometry. `nvmeInit` and `ioQueues` carry their
outcome: the controller became ready, the queues were allocated. -/
inductive DiskOp where
  | setDev (ctrlKind ch dv partLba : Nat)
  | init
  | nvmeInit (ok : Bool)
  | ioQueues (ok : Bool)

def DiskOp.run (fs : Exfat) : DiskOp → Exfat
  | setDev ctrlKind ch dv partLba => fs.exfatSetDev ctrlKind ch dv partLba
  | init => fs.exfatInit.2
  | nvmeInit ok => { fs with disks := { fs.disks with ready := fs.disks.ready || ok } }
  | ioQueues ok => { fs with disks := { fs.disks with queues := fs.disks.queues || ok } }

/-- The sector a source names. -/
def sourceSector (fs : Exfat) : Dev × Nat → Buf
  | (.nvme, lba) => fs.disks.media.sector .nvme lba
  | (.ata ch dv, lba) => fs.disks.media.sector (.ata ch dv) (lba28 lba)

theorem sourceSector_dev (fs : Exfat) (lba : Nat) : fs.sourceSector (fs.dev, lba) = fs.sector lba := by
  unfold sourceSector sector addr dev
  by_cases hr : fs.disks.ready = true <;> simp [hr]

/-- The geometry is the one in an exFAT boot sector. -/
structure GeometryOf (fs : Exfat) (sec : Buf) : Prop where
  exfat : isExfat sec = true
  boot : fs.boot = decodeBoot sec
  bps : fs.bps = shl1 (decodeBoot sec).bpsShift
  spc : fs.spc = shl1 (decodeBoot sec).spcShift
  bpc : fs.bpc = wrap32 (shl1 (decodeBoot sec).bpsShift * shl1 (decodeBoot sec).spcShift)

/-- A mounted volume has the geometry of the boot sector of the addressed device, and it was
read from there. -/
def GeometryRight (fs : Exfat) : Prop :=
  fs.ok = true → fs.bootFrom = some (fs.dev, fs.partLba) ∧ fs.GeometryOf (fs.sector fs.partLba)

/-- Before the first mount. -/
structure Fresh (fs : Exfat) : Prop where
  ok : fs.ok = false
  bootFrom : fs.bootFrom = none

/-! ### What holds in every run -/

/-- The geometry is that of its source. -/
structure Sourced (fs : Exfat) : Prop where
  mounted : fs.ok = true → fs.bootFrom ≠ none
  geometry : ∀ src, fs.bootFrom = some src → fs.GeometryOf (fs.sourceSector src)

/-- The source of the geometry is the addressed device. -/
def Aligned (fs : Exfat) : Prop := fs.ok = true → fs.bootFrom = some (fs.dev, fs.partLba)

theorem Fresh.sourced {fs : Exfat} (h : Fresh fs) : Sourced fs where
  mounted hok := by rw [h.ok] at hok; cases hok
  geometry src hsrc := by rw [h.bootFrom] at hsrc; cases hsrc

theorem Fresh.aligned {fs : Exfat} (h : Fresh fs) : Aligned fs := by
  intro hok
  rw [h.ok] at hok
  cases hok

theorem Sourced.geometryRight_iff {fs : Exfat} (h : Sourced fs) : GeometryRight fs ↔ Aligned fs := by
  constructor
  · exact fun hr hok => (hr hok).1
  · intro ha hok
    refine ⟨ha hok, ?_⟩
    rw [← sourceSector_dev]
    exact h.geometry _ (ha hok)

/-- Reading, and moving to another position, leaves the source alone. -/
theorem Sourced.after_moved {fs : Exfat} (h : Sourced fs) (n : Dev → Nat) (tmp : Buf)
    (log : List (Nat × Nat)) (ch dv pl : Nat) : Sourced ((fs.after n tmp log).moved ch dv pl) where
  mounted := h.mounted
  geometry src hsrc :=
    have hg := h.geometry src hsrc
    ⟨hg.exfat, hg.boot, hg.bps, hg.spc, hg.bpc⟩

theorem Sourced.after {fs : Exfat} (h : Sourced fs) (n : Dev → Nat) (tmp : Buf) (log : List (Nat × Nat)) :
    Sourced (fs.after n tmp log) :=
  h.after_moved n tmp log fs.ch fs.dv fs.partLba

theorem sourced_loaded {fs : Exfat} {src : Dev × Nat}
    (hex : isExfat (fs.sourceSector src) = true) :
    Sourced (fs.loaded (decodeBoot (fs.sourceSector src)) src) where
  mounted _ := Option.some_ne_none src
  geometry src' hsrc := by
    obtain rfl : src = src' := Option.some.inj hsrc
    have hsame : (fs.loaded (decodeBoot (fs.sourceSector src)) src).sourceSector src =
        fs.sourceSector src := by
      obtain ⟨d, lba⟩ := src
      cases d <;> simp only [sourceSector, loaded]
    rw [hsame]
    exact ⟨hex, rfl, rfl, rfl, rfl⟩

theorem Sourced.init {fs : Exfat} (h : Sourced fs) : Sourced fs.exfatInit.2 := by
  by_cases hr : fs.disks.ready = true
  · cases hvol : fs.nvmeVolume with
    | none =>
      obtain ⟨n, log, hn⟩ := exfatInit_nvme_none hr hvol
      rw [hn]
      exact h.after n fs.tmp log
    | some pl =>
      by_cases hforced : fs.devForced = true
      · obtain ⟨n, log, hn⟩ := exfatInit_nvme_forced hr hforced hvol
        rw [hn]
        cases hboot : fs.ataBoot 0 0 pl with
        | none => exact h.after_moved n fs.tmp log 0 0 pl
        | some boot =>
          obtain ⟨hex, rfl⟩ := ataBoot_some hboot
          exact @sourced_loaded ((fs.after n fs.tmp log).moved 0 0 pl) (.ata 0 0, pl) hex
      · obtain ⟨n, log, hn⟩ := exfatInit_nvme hr hforced hvol
        rw [hn]
        have hex := nvmeVolume_spec hvol
        exact @sourced_loaded ((fs.after n fs.tmp log).moved 0 0 pl) (.nvme, pl) hex
  · obtain ⟨n, -, hn | ⟨ch, dv, pl, hex, hn⟩⟩ := exfatInit_ata hr
    · rw [hn]
      exact h.after n fs.tmp fs.log
    · rw [hn]
      exact @sourced_loaded ((fs.after n fs.tmp fs.log).moved ch dv pl) (.ata ch dv, pl)
        hex

theorem Sourced.run {fs : Exfat} (h : Sourced fs) (op : DiskOp) : Sourced (op.run fs) := by
  cases op with
  | setDev ctrlKind ch dv partLba =>
    unfold DiskOp.run exfatSetDev
    dsimp only
    split
    · exact ⟨h.mounted, fun src hsrc =>
        have hg := h.geometry src hsrc
        ⟨hg.exfat, hg.boot, hg.bps, hg.spc, hg.bpc⟩⟩
    · exact h
  | init => exact h.init
  | nvmeInit ok =>
    exact ⟨h.mounted, fun src hsrc =>
      have hg := h.geometry src hsrc
      ⟨hg.exfat, hg.boot, hg.bps, hg.spc, hg.bpc⟩⟩
  | ioQueues ok =>
    exact ⟨h.mounted, fun src hsrc =>
      have hg := h.geometry src hsrc
      ⟨hg.exfat, hg.boot, hg.bps, hg.spc, hg.bpc⟩⟩

/-! ### Which steps separate geometry and device -/

/-- The step leaves a mounted volume with its device. -/
def DiskOp.Safe (fs : Exfat) : DiskOp → Prop
  | setDev ctrlKind ch dv partLba =>
    ctrlKind = 1 ∧ ch ≤ 1 ∧ dv ≤ 1 ∧ partLba ≠ 0 → fs.ok = true →
      partLba = fs.partLba ∧ (fs.disks.ready = true ∨ ch = fs.ch ∧ dv = fs.dv)
  | init => ∀ pl, fs.disks.ready = true → fs.devForced = true → fs.nvmeVolume = some pl →
    match fs.ataBoot 0 0 pl with
    | none => fs.ok = true → pl = fs.partLba
    | some boot => fs.ok = false ∧ fits boot = false
  | nvmeInit ok => ok = true → fs.ok = true → fs.disks.ready = true
  | ioQueues _ => True

theorem aligned_loaded {fs : Exfat} (boot : ExfatBoot) :
    Aligned (fs.loaded boot (fs.dev, fs.partLba)) := fun _ => rfl

section Steps

variable {fs : Exfat} (h : Aligned fs)
include h

theorem Aligned.setDev_iff (ctrlKind ch dv partLba : Nat) :
    Aligned (fs.exfatSetDev ctrlKind ch dv partLba) ↔
      (DiskOp.setDev ctrlKind ch dv partLba).Safe fs := by
  unfold exfatSetDev DiskOp.Safe
  dsimp only
  split
  · rename_i hacc
    have hiff : fs.ok = true →
        (fs.bootFrom = some (Exfat.dev { fs with ch := ch, dv := dv }, partLba) ↔
          partLba = fs.partLba ∧ (fs.disks.ready = true ∨ ch = fs.ch ∧ dv = fs.dv)) := by
      intro hok
      rw [h hok, Option.some.injEq, Prod.mk.injEq]
      unfold Exfat.dev
      by_cases hr : fs.disks.ready = true
      · simp only [hr, if_true, true_or, and_true, true_and]
        exact eq_comm
      · simp only [hr, if_false, false_or, Dev.ata.injEq, Bool.false_eq_true]
        constructor
        · rintro ⟨⟨h1, h2⟩, h3⟩
          exact ⟨h3.symm, h1.symm, h2.symm⟩
        · rintro ⟨h1, h2, h3⟩
          exact ⟨⟨h2.symm, h3.symm⟩, h1.symm⟩
    constructor
    · exact fun ha _ hok => (hiff hok).mp (ha hok)
    · exact fun hs hok => (hiff hok).mpr (hs hacc hok)
  · rename_i hrej
    exact iff_of_true h fun hacc => absurd hacc hrej

theorem Aligned.nvmeInit_iff (ok : Bool) :
    Aligned ((DiskOp.nvmeInit ok).run fs) ↔ (DiskOp.nvmeInit ok).Safe fs := by
  unfold DiskOp.run DiskOp.Safe Aligned
  dsimp only
  cases ok with
  | false =>
    refine iff_of_true ?_ fun hf => absurd hf (by decide)
    intro hok
    rw [h hok]
    unfold Exfat.dev
    simp
  | true =>
    have hdev : Exfat.dev { fs with disks := { fs.disks with ready := fs.disks.ready || true } } =
        .nvme := by
      unfold Exfat.dev
      simp
    rw [hdev]
    constructor
    · intro ha _ hok
      have := (h hok).symm.trans (ha hok)
      rw [Option.some.injEq, Prod.mk.injEq] at this
      by_contra hr
      have hd := this.1
      unfold Exfat.dev at hd
      rw [if_neg hr] at hd
      cases hd
    · intro hs hok
      rw [h hok]
      unfold Exfat.dev
      rw [if_pos (hs rfl hok)]

theorem Aligned.after (n : Dev → Nat) (tmp : Buf) (log : List (Nat × Nat)) : Aligned (fs.after n tmp log) := h

/-- A controller that is ready, a forced position and a volume on the NVMe disk: after the
check of the primary master the geometry belongs there, or only the position has moved. -/
theorem Aligned.init_forced_iff (hr : fs.disks.ready = true) (hforced : fs.devForced = true) {pl : Nat}
    (hvol : fs.nvmeVolume = some pl) :
    Aligned fs.exfatInit.2 ↔
      match fs.ataBoot 0 0 pl with
      | none => fs.ok = true → pl = fs.partLba
      | some boot => fs.ok = false ∧ fits boot = false := by
  have hdev : ∀ n log, ((fs.after n fs.tmp log).moved 0 0 pl).dev = .nvme := fun n log => if_pos hr
  obtain ⟨n, log, hn⟩ := exfatInit_nvme_forced hr hforced hvol
  rw [hn]
  cases fs.ataBoot 0 0 pl with
  | none =>
    change (fs.ok = true → fs.bootFrom = some (((fs.after n fs.tmp log).moved 0 0 pl).dev, pl)) ↔ _
    rw [hdev]
    refine forall_congr' fun hok => ?_
    rw [h hok, Option.some.injEq, Prod.mk.injEq, Exfat.dev, if_pos hr]
    simp only [true_and]
    exact eq_comm
  | some boot =>
    change ((fs.ok || fits boot) = true →
      some (Dev.ata 0 0, pl) = some (((fs.after n fs.tmp log).moved 0 0 pl).dev, pl)) ↔
      fs.ok = false ∧ fits boot = false
    rw [hdev, ← Bool.or_eq_false_iff, ← Bool.not_eq_true]
    refine forall_congr' fun _ => iff_of_false (fun heq => ?_) id
    simp at heq

theorem Aligned.init_iff : Aligned fs.exfatInit.2 ↔ DiskOp.init.Safe fs := by
  by_cases hr : fs.disks.ready = true
  · cases hvol : fs.nvmeVolume with
    | none =>
      obtain ⟨n, log, hn⟩ := exfatInit_nvme_none hr hvol
      rw [hn]
      refine iff_of_true (h.after n fs.tmp log) fun pl _ _ hsome => ?_
      rw [hvol] at hsome
      cases hsome
    | some pl =>
      by_cases hforced : fs.devForced = true
      · rw [h.init_forced_iff hr hforced hvol]
        constructor
        · intro hs pl' _ _ hsome
          obtain rfl : pl = pl' := Option.some.inj (hvol.symm.trans hsome)
          exact hs
        · exact fun hs => hs pl hr hforced hvol
      · obtain ⟨n, log, hn⟩ := exfatInit_nvme hr hforced hvol
        rw [hn]
        refine iff_of_true ?_ fun _ _ hf => absurd hf hforced
        have hdev : ((fs.after n fs.tmp log).moved 0 0 pl).dev = .nvme := if_pos hr
        have := @aligned_loaded ((fs.after n fs.tmp log).moved 0 0 pl)
          (decodeBoot (fs.disks.media.sector .nvme pl))
        rwa [hdev] at this
  · refine iff_of_true ?_ fun _ hready => absurd hready hr
    obtain ⟨n, -, hn | ⟨ch, dv, pl, -, hn⟩⟩ := exfatInit_ata hr
    · rw [hn]
      exact h.after n fs.tmp fs.log
    · rw [hn]
      have hdev : ((fs.after n fs.tmp fs.log).moved ch dv pl).dev = .ata ch dv := if_neg hr
      have := @aligned_loaded ((fs.after n fs.tmp fs.log).moved ch dv pl)
        (decodeBoot (fs.disks.media.sector (.ata ch dv) (lba28 pl)))
      rwa [hdev] at this

/-- A step keeps geometry and device together exactly if it is safe. -/
theorem Aligned.run_iff (op : DiskOp) : Aligned (op.run fs) ↔ op.Safe fs := by
  cases op with
  | setDev ctrlKind ch dv partLba => exact h.setDev_iff ctrlKind ch dv partLba
  | init => exact h.init_iff
  | nvmeInit ok => exact h.nvmeInit_iff ok
  | ioQueues ok => exact iff_of_true h trivial

end Steps

/-- A safe step. -/
def SafeStep (fs fs' : Exfat) : Prop := ∃ op : DiskOp, op.Safe fs ∧ fs' = op.run fs

/-- In every run of safe steps a mounted volume has the geometry of the boot sector of the
device that `sec_rd` and `sec_wr` address. -/
theorem geometryRight_of_safe {start fs : Exfat} (hstart : Fresh start)
    (hrun : Relation.ReflTransGen SafeStep start fs) : GeometryRight fs := by
  have hinv : Sourced fs ∧ Aligned fs := by
    induction hrun with
    | refl => exact ⟨hstart.sourced, hstart.aligned⟩
    | tail _ hstep ih =>
      obtain ⟨op, hsafe, rfl⟩ := hstep
      exact ⟨ih.1.run op, (ih.2.run_iff op).mpr hsafe⟩
  exact hinv.1.geometryRight_iff.mpr hinv.2

/-- An exFAT volume on the primary master at sector 64, and a blank NVMe disk. -/
def twoDisks : Exfat :=
  unmounted fun d i =>
    if d = .ata 0 0 then
      match i with
      | 454 => 64
      | 510 => 0x55
      | 511 => 0xAA
      | 32771 => 0x45
      | 32772 => 0x58
      | 32773 => 0x46
      | 32774 => 0x41
      | 32775 => 0x54
      | 32876 => 9
      | 32877 => 3
      | 33278 => 0x55
      | 33279 => 0xAA
      | _ => 0
    else 0

theorem twoDisks_mounts : (DiskOp.init.run twoDisks).ok = true ∧
    (DiskOp.init.run twoDisks).bootFrom = some (.ata 0 0, 64) := by
  decide +kernel

theorem geometryRight_of_safe_twoDisks : GeometryRight (DiskOp.init.run twoDisks) :=
  @geometryRight_of_safe twoDisks _ ⟨rfl, rfl⟩
    (.single ⟨.init, fun _ hr => absurd hr (by decide), rfl⟩)

/-- The volume is mounted over ATA; then the NVMe controller comes up. -/
theorem nvme_takes_over : Fresh twoDisks ∧
    ¬ GeometryRight ([DiskOp.init, DiskOp.nvmeInit true].foldl DiskOp.run twoDisks) := by
  refine ⟨⟨rfl, rfl⟩, fun hg => ?_⟩
  obtain ⟨hok, hfrom⟩ := twoDisks_mounts
  have h := (hg hok).1
  have hdev : ([DiskOp.init, DiskOp.nvmeInit true].foldl DiskOp.run twoDisks).dev = .nvme := by
    decide +kernel
  rw [hdev] at h
  have := hfrom.symm.trans h
  simp at this

end Exfat

end WinDOS
