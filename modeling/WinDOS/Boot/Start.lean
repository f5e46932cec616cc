import WinDOS.Boot.LogDisk
import WinDOS.Fs.Mount
import WinDOS.Fs.Transport

/-!
# The disks during start-up (`kernel.cpp`)

The first `exfat_init` runs before the NVMe controller is up. When it comes up, a second one
decides whether the self-test and the log disk may write raw sectors: not if it has mounted
the volume of the NVMe disk. A volume it refuses is taken for a blank disk.
-/

set_option autoImplicit false

namespace WinDOS

open Bytes

/-- How `nvme_create_io_queues` ends: no memory, a command refused, or a result of 0. -/
inductive IoQueues where
  | noMemory
  | refused
  | created
deriving DecidableEq

/-- What start-up meets: `nvme_find` finds a controller, `nvme_init` returns 0, the queues, and
memory for the two buffers of the self-test. -/
structure NvmeProbe where
  found : Bool
  init : Bool
  ioQueues : IoQueues
  dmaPages : Bool

/-- Controller and queues came up. -/
def NvmeProbe.up (m : NvmeProbe) : Prop := m.found = true ∧ m.init = true ∧ m.ioQueues ≠ .noMemory

/-- `NVME.TXT` and `HI FROM EXFAT ON NVME`. -/
def nvmeTxt : List Byte := [0x4E, 0x56, 0x4D, 0x45, 0x2E, 0x54, 0x58, 0x54]
def hiFromExfat : List Byte :=
  [0x48, 0x49, 0x20, 0x46, 0x52, 0x4F, 0x4D, 0x20, 0x45, 0x58, 0x46, 0x41, 0x54, 0x20, 0x4F, 0x4E,
    0x20, 0x4E, 0x56, 0x4D, 0x45]
def hiFromNvme : List Byte := [0x48, 0x49, 0x20, 0x46, 0x52, 0x4F, 0x4D, 0x20, 0x4E, 0x56, 0x4D, 0x45]

/-- A text in a buffer of zeros. -/
def textBuf (s : List Byte) : Buf := fun i => s.getD i 0

namespace Kernel

/-- Before the first access to a disk. -/
def start (media : Media Dev) (stack : Buf) : Kernel where
  fs :=
    { disks := ⟨media, false, false⟩, boot := ⟨0, 0, 0, 0, 0, 0, 0, 0, 0, 0, 0⟩, ok := false
      bps := 0, spc := 0, bpc := 0, tmp := fun _ => 0, partLba := 0, ch := 0, dv := 0
      devForced := false, stack := stack, log := [], bootFrom := none }
  exfatOnNvme := false
  logbuf := fun _ => 0
  loglen := 0
  logsect := 0
  logdiskOk := false
  rawWrites := []

/-- The self-test: sector 16384 is written and read back. -/
def selfTest (k : Kernel) : Kernel :=
  let k := (k.rawWrite 16384 1 (textBuf hiFromNvme)).2
  { k with fs := { k.fs with disks := (k.fs.disks.nvmeRead 16384).2 } }

/-- The second `exfat_init` and what follows from its result. -/
def onNvme (m : NvmeProbe) (k : Kernel) : Kernel :=
  match k.fs.exfatInit with
  | (r2, fs) =>
    let k := { k with fs := fs }
    if r2 = 0 then
      let fs := (fs.exfatListDir fs.boot.rootDirCluster 8).2
      { k with fs := (fs.exfatWriteFile nvmeTxt (textBuf hiFromExfat) 21).fs, exfatOnNvme := true }
    else if m.ioQueues = .created ∧ m.dmaPages = true then k.selfTest
    else k

/-- The controller has become ready, and queues may have been allocated. -/
def controllerUp (m : NvmeProbe) (k : Kernel) : Kernel :=
  { k with
    fs := { k.fs with disks := { k.fs.disks with
      ready := true, queues := k.fs.disks.queues || m.ioQueues != .noMemory } } }

/-- The disk part of `_start`, up to the log disk. -/
def boot (m : NvmeProbe) (k : Kernel) : Kernel :=
  let k := { k with fs := ((k.fs.exfatSetDev 0 0 0 0).exfatInit).2 }
  let k := if m.found && m.init then onNvme m (k.controllerUp m) else k
  if k.exfatOnNvme then k else k.logdiskInit.2

/-- A call of the file system after start-up. -/
inductive FileCall where
  | list (dirCluster max : Nat)
  | find (dirCluster : Nat) (fname : List Byte)
  | read (firstCluster size : Nat) (buf : Buf)
  | write (fname : List Byte) (data : Buf) (size : Nat)

def FileCall.run (fs : Exfat) : FileCall → Exfat
  | list dirCluster max => (fs.exfatListDir dirCluster max).2
  | find dirCluster fname => (fs.exfatFind dirCluster fname).2
  | read firstCluster size buf =>
    match fs.exfatReadFile firstCluster size buf with
    | none => fs
    | some res => res.2.2
  | write fname data size => (fs.exfatWriteFile fname data size).fs

/-- What happens after start-up: a text is logged, the heartbeat flushes the log, a file is
accessed. -/
inductive Event where
  | text (s : List Byte)
  | heartbeat
  | file (call : FileCall)

def Event.run (k : Kernel) : Event → Kernel
  | text s => k.logdiskSink s
  | heartbeat => k.logdiskFlush
  | file call => { k with fs := call.run k.fs }

/-! ### Runs without a raw write -/

/-- No raw write so far, and none can follow. -/
structure Quiet (k : Kernel) : Prop where
  none : k.rawWrites = []
  off : k.logdiskOk = false ∨ (k.fs.disks.ready && k.fs.disks.queues) = false

theorem Quiet.flush {k : Kernel} (h : Quiet k) : Quiet k.logdiskFlush := by
  unfold logdiskFlush
  split
  · exact h
  · rename_i hgo
    have hoff : (k.fs.disks.ready && k.fs.disks.queues) = false :=
      h.off.resolve_left fun hk => hgo (.inl hk)
    dsimp only
    split
    · exact ⟨h.none, h.off⟩
    · have hwrite : k.rawWrite (LOGDISK_LBA0 + k.logsect) ((k.loglen + 511) / 512) k.logbuf =
          (false, k) := by
        unfold rawWrite Disks.nvmeWrite
        rw [hoff]
        rfl
      rw [hwrite]
      exact ⟨h.none, h.off⟩

theorem Quiet.sinkChars {k : Kernel} (h : Quiet k) (s : List Byte) : Quiet (k.sinkChars s) := by
  induction s generalizing k with
  | nil => exact h
  | cons c s ih =>
    rw [Kernel.sinkChars]
    have hfirst : Quiet (if k.loglen ≥ LOGDISK_BUF_SZ then k.logdiskFlush else k) := by
      split
      · exact h.flush
      · exact h
    generalize (if k.loglen ≥ LOGDISK_BUF_SZ then k.logdiskFlush else k) = k1 at hfirst ⊢
    split
    · exact hfirst
    · exact ih ⟨hfirst.none, hfirst.off⟩

theorem FileCall.sameTransport (fs : Exfat) (call : FileCall) :
    SameTransport fs.disks (call.run fs).disks := by
  cases call with
  | list dirCluster max => exact fs.sameTransport_exfatListDir dirCluster max
  | find dirCluster fname => exact fs.sameTransport_exfatFind dirCluster fname
  | read firstCluster size buf =>
    change SameTransport fs.disks
      (match fs.exfatReadFile firstCluster size buf with | none => fs | some res => res.2.2).disks
    cases hres : fs.exfatReadFile firstCluster size buf with
    | none => exact .refl _
    | some res =>
      unfold Exfat.exfatReadFile at hres
      split at hres
      · exact Exfat.sameTransport_readLoop hres
      · obtain rfl := Option.some.inj hres
        exact .refl _
  | write fname data size => exact fs.sameTransport_exfatWriteFile fname data size

theorem Quiet.run {k : Kernel} (h : Quiet k) (e : Event) : Quiet (e.run k) := by
  cases e with
  | text s =>
    change Quiet (if k.logdiskOk then k.sinkChars s else k)
    split
    · exact h.sinkChars s
    · exact h
  | heartbeat => exact h.flush
  | file call =>
    have hs := call.sameTransport k.fs
    refine ⟨h.none, ?_⟩
    change k.logdiskOk = false ∨ ((call.run k.fs).disks.ready && (call.run k.fs).disks.queues) = false
    rw [hs.ready, hs.queues]
    exact h.off

theorem Quiet.events {k : Kernel} (h : Quiet k) (events : List Event) :
    Quiet (events.foldl Event.run k) := by
  induction events generalizing k with
  | nil => exact h
  | cons e events ih => exact ih (h.run e)

/-! ### The second mount -/

/-- The NVMe disk has an MBR and an exFAT volume in its first partition with clusters that fit
`g_tmp`, and the two reads that look for them are served. -/
structure Mountable (media : Media Dev) : Prop where
  mbrRead : media.faults .nvme (media.issued .nvme) = none
  signature : Exfat.hasSignature (media.sector .nvme 0) = true
  partition : Exfat.firstPartition (media.sector .nvme 0) ≠ 0
  bootRead : media.faults .nvme (media.issued .nvme + 1) = none
  exfat : Exfat.isExfat
    (media.sector .nvme (Exfat.firstPartition (media.sector .nvme 0))) = true
  fits : Exfat.fits (Exfat.decodeBoot
    (media.sector .nvme (Exfat.firstPartition (media.sector .nvme 0)))) = true

/-- The disks after the first `exfat_init`: only commands over ATA have been issued. -/
theorem start_init (media : Media Dev) (stack : Buf) :
    ∃ n, n .nvme = media.issued .nvme ∧
      (((start media stack).fs.exfatSetDev 0 0 0 0).exfatInit).2.disks =
        ⟨{ media with issued := n }, false, false⟩ ∧
      (((start media stack).fs.exfatSetDev 0 0 0 0).exfatInit).2.devForced = false := by
  have hr : ¬ ((start media stack).fs.exfatSetDev 0 0 0 0).disks.ready = true := by
    rw [show (start media stack).fs.exfatSetDev 0 0 0 0 = (start media stack).fs from rfl]
    exact Bool.false_ne_true
  obtain ⟨n, hn, h | ⟨ch, dv, pl, -, h⟩⟩ := Exfat.exfatInit_ata hr
  · exact ⟨n, hn, by rw [h]; rfl, by rw [h]; rfl⟩
  · exact ⟨n, hn, by rw [h]; rfl, by rw [h]; rfl⟩

section Up

variable {fs : Exfat} {media : Media Dev} {n : Dev → Nat} (hn : n .nvme = media.issued .nvme)
  (hforced : fs.devForced = false)

include hn hforced in
/-- With controller and queues the second `exfat_init` mounts exactly a mountable disk. -/
theorem init_up (hd : fs.disks = ⟨{ media with issued := n }, true, true⟩) :
    (fs.exfatInit.1 = 0 ↔ Mountable media) ∧ SameTransport fs.disks fs.exfatInit.2.disks := by
  have hr : fs.disks.ready = true := by rw [hd]
  have hnf : ¬ fs.devForced = true := by rw [hforced]; exact Bool.false_ne_true
  have hsec : ∀ lba, fs.disks.media.sector .nvme lba = media.sector .nvme lba := fun lba => by
    rw [hd]
    rfl
  have hfaults : ∀ k, fs.disks.media.faults .nvme (fs.disks.media.issued .nvme + k) =
      media.faults .nvme (media.issued .nvme + k) := fun k => by
    rw [hd]
    exact congrArg (fun i => media.faults .nvme (i + k)) hn
  cases hvol : fs.nvmeVolume with
  | none =>
    obtain ⟨n', log, h⟩ := Exfat.exfatInit_nvme_none hr hvol
    rw [h]
    refine ⟨iff_of_false (show ¬ (-8 : Int) = 0 by decide) fun hm => ?_, ⟨rfl, rfl⟩⟩
    have hsome := Exfat.nvmeVolume_eq_some.mpr ⟨rfl, by rw [hd], (hfaults 0).trans hm.mbrRead,
      by rw [hsec]; exact hm.signature, by rw [hsec]; exact hm.partition,
      (hfaults 1).trans hm.bootRead, by rw [hsec, hsec]; exact hm.exfat⟩
    rw [hsome] at hvol
    cases hvol
  | some pl =>
    obtain ⟨n', log, h⟩ := Exfat.exfatInit_nvme hr hnf hvol
    rw [h]
    refine ⟨?_, ⟨rfl, rfl⟩⟩
    obtain ⟨rfl, -, h1, h2, h3, h4, h5⟩ := Exfat.nvmeVolume_eq_some.mp hvol
    rw [hsec] at h2 h3 h5
    rw [hsec] at h5
    rw [hsec, hsec]
    constructor
    · intro hcode
      refine ⟨(hfaults 0).symm.trans h1, h2, h3, (hfaults 1).symm.trans h4, h5, ?_⟩
      by_contra hfits
      rw [if_neg hfits] at hcode
      exact absurd (show (-4 : Int) = 0 from hcode) (by decide)
    · exact fun hm => if_pos hm.fits

theorem init_up_noQueues (hd : fs.disks = ⟨{ media with issued := n }, true, false⟩) :
    fs.exfatInit.1 ≠ 0 ∧ SameTransport fs.disks fs.exfatInit.2.disks := by
  have hvol : fs.nvmeVolume = none := by
    refine Option.eq_none_iff_forall_ne_some.mpr fun pl hsome => ?_
    have hq := (Exfat.nvmeVolume_eq_some.mp hsome).2.1
    rw [hd] at hq
    cases hq
  obtain ⟨n', log, h⟩ := Exfat.exfatInit_nvme_none (by rw [hd]) hvol
  rw [h]
  exact ⟨show (-8 : Int) ≠ 0 by decide, ⟨rfl, rfl⟩⟩

end Up

/-! ### Start-up -/

theorem rawWrites_rawWrite {k : Kernel} (hon : (k.fs.disks.ready && k.fs.disks.queues) = true)
    (slba nlb : Nat) (buf : Buf) :
    (k.rawWrite slba nlb buf).2.rawWrites ≠ [] ∧
      SameTransport k.fs.disks (k.rawWrite slba nlb buf).2.fs.disks := by
  have hs := k.fs.disks.sameTransport_nvmeWrite slba nlb buf
  unfold rawWrite
  dsimp only
  rw [if_pos hon]
  exact ⟨by simp, hs⟩

theorem boot_eq (m : NvmeProbe) (media : Media Dev) (stack : Buf) :
    ∃ k : Kernel, ∃ n, n .nvme = media.issued .nvme ∧
      k.fs.disks = ⟨{ media with issued := n }, false, false⟩ ∧ k.fs.devForced = false ∧
      k.exfatOnNvme = false ∧ k.logdiskOk = false ∧ k.rawWrites = [] ∧
      boot m (start media stack) =
        let k := if m.found && m.init then onNvme m (k.controllerUp m) else k
        if k.exfatOnNvme then k else k.logdiskInit.2 := by
  obtain ⟨n, hn, hd, hforced⟩ := start_init media stack
  exact ⟨{ start media stack with fs := (((start media stack).fs.exfatSetDev 0 0 0 0).exfatInit).2 },
    n, hn, hd, hforced, rfl, rfl, rfl, rfl⟩

theorem boot_quiet {m : NvmeProbe} {media : Media Dev} {stack : Buf}
    (h : m.up → Mountable media) : Quiet (boot m (start media stack)) := by
  obtain ⟨k, n, hn, hd, hforced, hex, hoff, hraw, hboot⟩ := boot_eq m media stack
  rw [hboot]
  dsimp only
  by_cases hfound : (m.found && m.init) = true
  · rw [if_pos hfound]
    rw [Bool.and_eq_true] at hfound
    by_cases hq : m.ioQueues = .noMemory
    · obtain ⟨hcode, hs⟩ := @init_up_noQueues (k.controllerUp m).fs media n
        (by simp [controllerUp, hd, hq])
      have hon : onNvme m (k.controllerUp m) =
          { k.controllerUp m with fs := (k.controllerUp m).fs.exfatInit.2 } := by
        unfold onNvme
        dsimp only
        rw [if_neg hcode, if_neg fun hc => by rw [hq] at hc; exact absurd hc.1 (by decide)]
      rw [hon, if_neg (by rw [show (k.controllerUp m).exfatOnNvme = k.exfatOnNvme from rfl, hex]; decide)]
      refine ⟨?_, .inr ?_⟩
      · unfold logdiskInit
        split <;> exact hraw
      · have hqueues : (k.controllerUp m).fs.exfatInit.2.disks.queues = false := by
          rw [hs.queues]
          simp [controllerUp, hd, hq]
        unfold logdiskInit
        split <;> simp [hqueues]
    · have hm := h ⟨hfound.1, hfound.2, hq⟩
      obtain ⟨hcode, -⟩ := @init_up (k.controllerUp m).fs media n hn hforced
        (by simp [controllerUp, hd, hq])
      have hon : (onNvme m (k.controllerUp m)).exfatOnNvme = true ∧
          (onNvme m (k.controllerUp m)).logdiskOk = false ∧
          (onNvme m (k.controllerUp m)).rawWrites = [] := by
        unfold onNvme
        dsimp only
        rw [if_pos (hcode.mpr hm)]
        exact ⟨rfl, hoff, hraw⟩
      rw [if_pos hon.1]
      exact ⟨hon.2.2, .inl hon.2.1⟩
  · rw [if_neg hfound, if_neg (by rw [hex]; decide)]
    have hr : ¬ k.fs.disks.ready = true := by rw [hd]; exact Bool.false_ne_true
    unfold logdiskInit
    rw [if_neg hr]
    exact ⟨hraw, .inl hoff⟩

/-- A volume that is not mounted leaves the log disk on, with an empty buffer. -/
theorem boot_logs {m : NvmeProbe} {media : Media Dev} {stack : Buf} (hup : m.up)
    (h : ¬ Mountable media) :
    (boot m (start media stack)).logdiskOk = true ∧ (boot m (start media stack)).loglen = 0 ∧
      (boot m (start media stack)).logsect = 0 ∧
      ((boot m (start media stack)).fs.disks.ready &&
        (boot m (start media stack)).fs.disks.queues) = true := by
  obtain ⟨k, n, hn, hd, hforced, hex, -, -, hboot⟩ := boot_eq m media stack
  have hfound : (m.found && m.init) = true := by rw [hup.1, hup.2.1]; rfl
  obtain ⟨hcode, hs⟩ := @init_up (k.controllerUp m).fs media n hn hforced
    (by simp [controllerUp, hd, hup.2.2])
  have hready : (k.controllerUp m).fs.disks.ready = true := rfl
  have hqueues : (k.controllerUp m).fs.disks.queues = true := by simp [controllerUp, hup.2.2]
  have hon : (onNvme m (k.controllerUp m)).exfatOnNvme = false ∧
      ((onNvme m (k.controllerUp m)).fs.disks.ready = true ∧
        (onNvme m (k.controllerUp m)).fs.disks.queues = true) := by
    unfold onNvme
    dsimp only
    rw [if_neg fun h0 => h (hcode.mp h0)]
    split
    · refine ⟨hex, ?_⟩
      have h1 := (k.controllerUp m).fs.exfatInit.2.disks.sameTransport_nvmeWrite 16384 1
        (textBuf hiFromNvme)
      have h2 := ((k.controllerUp m).fs.exfatInit.2.disks.nvmeWrite 16384 1
        (textBuf hiFromNvme)).2.sameTransport_nvmeRead 16384
      have hall := (hs.trans h1).trans h2
      exact ⟨hall.ready.trans hready, hall.queues.trans hqueues⟩
    · exact ⟨hex, hs.ready.trans hready, hs.queues.trans hqueues⟩
  rw [hboot]
  dsimp only
  rw [if_pos hfound, if_neg (by rw [hon.1]; decide)]
  unfold logdiskInit
  rw [if_pos hon.2.1]
  exact ⟨rfl, rfl, rfl, by rw [hon.2.1, hon.2.2]; rfl⟩

theorem heartbeat_writes {k : Kernel} (hok : k.logdiskOk = true) (hlen : k.loglen = 0)
    (hsect : k.logsect = 0) (hon : (k.fs.disks.ready && k.fs.disks.queues) = true) (c : Byte) :
    (Event.heartbeat.run ((Event.text [c]).run k)).rawWrites ≠ [] := by
  have htext : (Event.text [c]).run k =
      { k with logbuf := Function.update k.logbuf 0 c, loglen := 1 } := by
    change (if k.logdiskOk then k.sinkChars [c] else k) = _
    have h0 : ¬ k.loglen ≥ LOGDISK_BUF_SZ := by rw [hlen]; decide
    rw [if_pos hok, sinkChars, if_neg h0, if_neg h0, sinkChars, hlen]
  rw [htext]
  generalize hk1 : ({ k with logbuf := Function.update k.logbuf 0 c, loglen := 1 } : Kernel) = k1
  have hok1 : k1.logdiskOk = true := by rw [← hk1]; exact hok
  have hlen1 : k1.loglen = 1 := by rw [← hk1]
  have hsect1 : k1.logsect = 0 := by rw [← hk1]; exact hsect
  have hon1 : (k1.fs.disks.ready && k1.fs.disks.queues) = true := by rw [← hk1]; exact hon
  have hwrite := (rawWrites_rawWrite hon1 (LOGDISK_LBA0 + k1.logsect) ((k1.loglen + 511) / 512)
    k1.logbuf).1
  change k1.logdiskFlush.rawWrites ≠ []
  unfold logdiskFlush
  rw [if_neg (by simp [hok1, hlen1])]
  dsimp only
  rw [if_neg (by rw [hsect1, hlen1]; decide)]
  split <;> rename_i hw <;> rw [hw] at hwrite <;> exact hwrite

/-- No run from start-up writes a raw sector exactly if the controller or its queues do not
come up, or the NVMe disk is mountable. -/
theorem no_raw_write_iff (m : NvmeProbe) (media : Media Dev) (stack : Buf) :
    (∀ events : List Event,
      (events.foldl Event.run (boot m (start media stack))).rawWrites = []) ↔
      (m.up → Mountable media) := by
  constructor
  · intro hall hup
    by_contra hm
    obtain ⟨hok, hlen, hsect, hon⟩ := @boot_logs _ _ stack hup hm
    exact heartbeat_writes hok hlen hsect hon 0x5B (hall [.text [0x5B], .heartbeat])
  · exact fun h events => ((boot_quiet h).events events).none

/-- An NVMe disk with an exFAT volume of 32 KiB clusters at sector 64. -/
def bigClusters : Media Dev where
  data := fun d i =>
    if d = .nvme then
      match i with
      | 454 => 64
      | 510 => 0x55
      | 511 => 0xAA
      | 32771 => 0x45
      | 32772 => 0x58
      | 32773 => 0x46
      | 32774 => 0x41
      | 32775 => 0x54
      | 32876 => 9
      | 32877 => 6
      | 33278 => 0x55
      | 33279 => 0xAA
      | _ => 0
    else 0
  faults := fun _ _ => none
  issued := fun _ => 0

/-- The second mount refuses the clusters, and the self-test writes sector 16384. -/
theorem raw_write_on_exfat :
    Exfat.hasSignature (bigClusters.sector .nvme 0) = true ∧
    Exfat.firstPartition (bigClusters.sector .nvme 0) = 64 ∧
    Exfat.isExfat (bigClusters.sector .nvme 64) = true ∧
    ((boot ⟨true, true, .created, true⟩ (start bigClusters fun _ => 0)).rawWrites.map
      fun w => (w.slba, w.nlb)) = [(16384, 1)] := by
  decide +kernel

end Kernel

end WinDOS
