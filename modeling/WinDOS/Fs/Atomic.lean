import WinDOS.Fs.Allocate

/-!
# What a call of `exfat_write_file` that fails leaves behind

The data, the bitmap and the directory are written one after the other. A call that gives up
leaves bitmap and directory as they were if it gives up before a write has changed them.
-/

set_option autoImplicit false

namespace WinDOS

open Bytes

namespace Exfat

/-! ### The condition -/

/-- The address that sector `j` of a cluster is read from. -/
def cellAddr (fs : Exfat) (c j : Nat) : Nat := fs.addr (wrap32 (fs.clusterToLba c + j))

/-- The address it has in a write of the whole cluster: a command takes 64-bit sector numbers. -/
def putAddr (fs : Exfat) (c j : Nat) : Nat := fs.addr (fs.clusterToLba c + j)

/-- The write of cluster `c` that begins with command `n` stores the sector at address `a`. -/
def Rewrites (fs : Exfat) (n c a : Nat) : Prop :=
  ∃ j < fs.spc, fs.Stored n fs.spc j ∧ a = fs.putAddr c j

section Condition

variable (fs : Exfat) (P Q : Nat → Prop)

/-- The address is one of a cluster of `P`. -/
def Protected (a : Nat) : Prop := ∃ c, P c ∧ ∃ i < fs.spc, a = fs.cellAddr c i

/-- The clusters of `P` have the same contents. -/
def MetadataKept (fs' : Exfat) : Prop :=
  ∀ c, P c → ∀ j < fs.bpc, fs'.clusterBytes c j = fs.clusterBytes c j

/-- A call that fails leaves the clusters of `P` as they were. -/
def AtomicOnFailure (r : WriteRun) : Prop := r.code ≠ 0 → fs.MetadataKept P r.fs

/-- The sectors at the addresses of `Q` have the same contents. -/
def SectorsKept (fs' : Exfat) : Prop := ∀ a, Q a → ∀ i < 512, fs'.cell a i = fs.cell a i

/-- What the call reads of the root directory and of the bitmap. -/
def rootBuf : Buf := blit fs.stack 0 (fs.clusterBytes fs.boot.rootDirCluster) (fs.spc * 512)
def bitmapBuf : Buf := blit fs.stack 0 (fs.clusterBytes fs.bitmapCluster) (fs.spc * 512)

/-- The numbers of the first commands of steps 3, 4 and 5. -/
def dataStart : Nat := fs.issued + (fs.spc + fs.spc)
def bitmapStart (size : Nat) : Nat := fs.dataStart + 2 * ((size + 511) / 512)
def dirStart (size : Nat) : Nat := fs.bitmapStart size + fs.cmds fs.spc

/-- The end of the directory leaves room for an entry set. -/
def Room : Prop := dirEnd fs.rootBuf fs.bpc fs.bpc 0 + 96 ≤ fs.bpc

/-- Sector `k` of the data is already in cluster `cc`. -/
def SameData (data : Buf) (size cc k : Nat) : Prop :=
  ∀ i < 512, dataSector (fs.cell (fs.cellAddr cc k)) data size k i = fs.cell (fs.cellAddr cc k) i

/-- Sector `j` of the directory with the new entry set is as before. -/
def SameEntry (fname : List Byte) (size cc j : Nat) : Prop :=
  ∀ i < 512, putEntrySet fs.rootBuf (dirEnd fs.rootBuf fs.bpc fs.bpc 0) fname size cc (j * 512 + i) =
    fs.cell (fs.cellAddr fs.boot.rootDirCluster j) i

/-- Every command of the call is served, and the directory has room. -/
def Completes (size : Nat) : Prop :=
  fs.DataCopied size ∧ fs.Done (fs.bitmapStart size) fs.spc ∧ fs.Room ∧
    fs.Done (fs.dirStart size) fs.spc

/-- The call stops in step 3, and no stored sector of the data changes a sector of `Q`. -/
def StopsInData (data : Buf) (size cc : Nat) : Prop :=
  ¬ fs.DataCopied size ∧ ∀ k < (size + 511) / 512, fs.DataStored fs.dataStart k →
    Q (fs.cellAddr cc k) → fs.SameData data size cc k

/-- The call stops in step 4 before it stores the new bit in a sector of `Q`, and what the data has
changed in a sector of `Q` is written back. -/
def StopsInBitmap (data : Buf) (size cc : Nat) : Prop :=
  fs.DataCopied size ∧ ¬ fs.Done (fs.bitmapStart size) fs.spc ∧
    (cc / 4096 < fs.spc →
      fs.Rewrites (fs.bitmapStart size) fs.bitmapCluster (fs.cellAddr fs.bitmapCluster (cc / 4096)) →
      ¬ Q (fs.cellAddr fs.bitmapCluster (cc / 4096))) ∧
    ∀ k < (size + 511) / 512, Q (fs.cellAddr cc k) → fs.SameData data size cc k ∨
      fs.Rewrites (fs.bitmapStart size) fs.bitmapCluster (fs.cellAddr cc k)

/-- The call stops in step 5 before it stores a changed sector of the directory in `Q`, and it has
not stored the new bit in `Q`, or has overwritten it with the directory. -/
def StopsInDirectory (fname : List Byte) (data : Buf) (size cc : Nat) : Prop :=
  fs.DataCopied size ∧ fs.Done (fs.bitmapStart size) fs.spc ∧
    (fs.Room → ¬ fs.Done (fs.dirStart size) fs.spc ∧ ∀ j < fs.spc,
      fs.Rewrites (fs.dirStart size) fs.boot.rootDirCluster (fs.cellAddr fs.boot.rootDirCluster j) →
      Q (fs.cellAddr fs.boot.rootDirCluster j) → fs.SameEntry fname size cc j) ∧
    (cc / 4096 < fs.spc →
      fs.Rewrites (fs.bitmapStart size) fs.bitmapCluster (fs.cellAddr fs.bitmapCluster (cc / 4096)) →
      Q (fs.cellAddr fs.bitmapCluster (cc / 4096)) →
      fs.Room ∧ fs.Rewrites (fs.dirStart size) fs.boot.rootDirCluster
        (fs.cellAddr fs.bitmapCluster (cc / 4096))) ∧
    ∀ k < (size + 511) / 512, Q (fs.cellAddr cc k) → fs.SameData data size cc k ∨
      fs.Rewrites (fs.bitmapStart size) fs.bitmapCluster (fs.cellAddr cc k) ∨
      (fs.Room ∧ fs.Rewrites (fs.dirStart size) fs.boot.rootDirCluster (fs.cellAddr cc k))

/-- The call does not get to choose a cluster, completes, or stops before it changes a sector of `Q`
for good. -/
def GivesUpCleanly (fname : List Byte) (data : Buf) (size : Nat) : Prop :=
  fs.ok = true → fs.Searches fname size → ∀ cc, fs.FirstClear cc → fs.Completes size ∨
    fs.StopsInData Q data size cc ∨ fs.StopsInBitmap Q data size cc ∨
    fs.StopsInDirectory Q fname data size cc

/-- The call gets to choose a cluster and completes. -/
def Succeeds (fname : List Byte) (size : Nat) : Prop :=
  fs.ok = true ∧ fs.Searches fname size ∧ (∃ cc, fs.FirstClear cc) ∧ fs.Completes size

/-- A mounted volume with sectors of 512 bytes whose clusters fit the buffers. -/
structure WriteVolume : Prop extends SectorVolume fs where
  small : fs.bpc ≤ TMP_SIZE

end Condition

/-! ### The metadata, sector by sector -/

theorem Done.stored {fs : Exfat} {n cnt j : Nat} (h : fs.Done n cnt) (hj : j < cnt) :
    fs.Stored n cnt j := by
  by_cases hr : fs.disks.ready = true
  · rw [done_nvme hr] at h
    rw [stored_nvme hr]
    obtain ⟨h8, hon, hf⟩ := h
    exact ⟨h8, by simpa [online, hr] using hon, Media.keeps_of_ok hf j⟩
  · rw [done_ata hr] at h
    rw [stored_ata hr]
    exact ⟨fun i hi => h i (by omega), Media.keeps_of_ok (h j hj).2 0⟩

theorem cellAddr_lt (fs : Exfat) (c j : Nat) : fs.cellAddr c j < 2 ^ 32 := by
  unfold cellAddr addr lba28 wrap32
  split <;> omega

theorem Protected.lt {fs : Exfat} {P : Nat → Prop} {a : Nat} (h : fs.Protected P a) : a < 2 ^ 32 := by
  obtain ⟨c, -, j, -, rfl⟩ := h
  exact fs.cellAddr_lt c j

/-- A sector is written where it is read, unless that is behind sector 2^32. -/
theorem putAddr_of_lt {fs : Exfat} {c j : Nat} (h : fs.putAddr c j < 2 ^ 32) :
    fs.putAddr c j = fs.cellAddr c j := by
  unfold putAddr addr at h
  unfold putAddr cellAddr addr
  by_cases hr : fs.disks.ready = true
  · rw [if_pos hr] at h
    rw [if_pos hr, if_pos hr]
    exact (Nat.mod_eq_of_lt h).symm
  · rw [if_neg hr, if_neg hr]
    unfold lba28 wrap32
    omega

/-- The write of a cluster stores a sector of that cluster as its own only. -/
theorem rewrites_own_iff {fs : Exfat} (hspc : fs.spc ≤ 2 ^ 28) {n c j : Nat} (hj : j < fs.spc) :
    fs.Rewrites n c (fs.cellAddr c j) ↔ fs.Stored n fs.spc j ∧ fs.putAddr c j = fs.cellAddr c j := by
  constructor
  · rintro ⟨i, hi, hst, heq⟩
    have hput : fs.putAddr c i = fs.cellAddr c i := putAddr_of_lt (heq ▸ fs.cellAddr_lt c j)
    obtain rfl : j = i := fs.addr_inj (by omega) (by omega) (heq.trans hput)
    exact ⟨hst, hput⟩
  · rintro ⟨hst, hput⟩
    exact ⟨j, hj, hst, hput.symm⟩

theorem metadataKept_iff {fs : Exfat} {P : Nat → Prop} (hv : SectorVolume fs) (m : Media Dev)
    (log : List (Nat × Nat)) :
    fs.MetadataKept P (fs.withMedia m log) ↔
      ∀ a, fs.Protected P a → ∀ i < 512, (fs.withMedia m log).cell a i = fs.cell a i := by
  have hbpc := hv.bpc
  constructor
  · rintro h a ⟨c, hc, k, hk, rfl⟩ i hi
    have hbyte := h c hc (k * 512 + i) (by omega)
    change (fs.withMedia m log).cell (fs.cellAddr c ((k * 512 + i) / 512)) ((k * 512 + i) % 512) =
      fs.cell (fs.cellAddr c ((k * 512 + i) / 512)) ((k * 512 + i) % 512) at hbyte
    rwa [show (k * 512 + i) / 512 = k by omega, show (k * 512 + i) % 512 = i by omega] at hbyte
  · intro h c hc j hj
    exact h _ ⟨c, hc, j / 512, by omega, rfl⟩ (j % 512) (by omega)

/-! ### One step after the other -/

section Steps

variable {fs : Exfat} (hv : WriteVolume fs) {m : Media Dev}
  {log : List (Nat × Nat)} (hm : m.faults = fs.disks.media.faults)
include hv hm

theorem WriteVolume.data_step {size : Nat} (hsize : size ≤ fs.bpc) (cc : Nat) (data : Buf)
    (hcell : (fs.withMedia m log).cell = fs.cell)
    (hissued : (fs.withMedia m log).issued = fs.dataStart) :
    ∃ code lbas m' log', writeData (fs.clusterToLba cc) data size (fs.withMedia m log)
        ((size + 511) / 512) 0 = (code, lbas, fs.withMedia m' log') ∧
      m'.faults = fs.disks.media.faults ∧ (code = 0 ↔ fs.DataCopied size) ∧
      (code = 0 → (fs.withMedia m' log').issued = fs.bitmapStart size) ∧
      Media.Stores fs.cell (fs.withMedia m' log').cell ((size + 511) / 512)
        (fs.DataStored fs.dataStart) (fs.cellAddr cc)
        fun k => dataSector (fs.cell (fs.cellAddr cc k)) data size k := by
  have hsmall : fs.bpc ≤ 8192 := hv.small
  obtain ⟨code, lbas, m', log', hrun, hfaults, hcode, hnext, hin, hout⟩ :=
    @writeData_effect (fs.clusterToLba cc) data size (fs.withMedia m log) ((size + 511) / 512) 0
      (by omega)
  rw [hissued] at hcode hnext hin hout
  simp only [withMedia_withMedia, withMedia_addr, withMedia_dataStored hm, withMedia_served hm,
    hcell, Nat.zero_add] at hrun hcode hnext hin hout
  exact ⟨code, lbas, m', log', hrun, hfaults.trans hm, hcode, hnext, hin, hout⟩

/-- A cluster is written in one call of the block layer. -/
theorem WriteVolume.write_cluster (c : Nat) (buf : Buf) {n : Nat}
    (hissued : (fs.withMedia m log).issued = n) :
    ∃ ok m' log', (fs.withMedia m log).secWr (fs.clusterToLba c) fs.spc buf =
        (ok, fs.withMedia m' log') ∧
      m'.faults = fs.disks.media.faults ∧ (ok = true ↔ fs.Done n fs.spc) ∧
      (ok = true → (fs.withMedia m' log').issued = n + fs.cmds fs.spc) ∧
      Media.Stores (fs.withMedia m log).cell (fs.withMedia m' log').cell fs.spc
        (fs.Stored n fs.spc) (fs.putAddr c) fun j i => buf (j * 512 + i) := by
  have hsmall : fs.bpc ≤ 8192 := hv.small
  have hbpc := hv.bpc
  obtain ⟨ok, m', log', hrun, hfaults, hok, hnext, hin, hout⟩ :=
    @secWr_effect (fs.withMedia m log) (fs.clusterToLba c) fs.spc buf (by omega)
  rw [hissued] at hok hnext hin hout
  simp only [withMedia_withMedia, withMedia_addr, withMedia_cmds, withMedia_done hm,
    withMedia_stored hm] at hrun hok hnext hin hout
  exact ⟨ok, m', log', hrun, hfaults.trans hm, hok, hnext, hin, hout⟩

/-- The directory has room: its cluster is written, and the code says whether it was. -/
theorem WriteVolume.entry_step (hroom : fs.Room) (fname : List Byte) (size cc : Nat) {n : Nat}
    (hissued : (fs.withMedia m log).issued = n) :
    ∃ ok m' log', (fs.withMedia m log).writeEntry fs.rootBuf fname size cc =
        (if ok then 0 else -5, fs.withMedia m' log') ∧
      m'.faults = fs.disks.media.faults ∧ (ok = true ↔ fs.Done n fs.spc) ∧
      Media.Stores (fs.withMedia m log).cell (fs.withMedia m' log').cell fs.spc
        (fs.Stored n fs.spc) (fs.putAddr fs.boot.rootDirCluster) fun j i =>
          putEntrySet fs.rootBuf (dirEnd fs.rootBuf fs.bpc fs.bpc 0) fname size cc (j * 512 + i) := by
  have hdn : fs.bpc / 512 = fs.spc := by
    have := hv.bpc
    omega
  have hspc := hv.spc
  obtain ⟨ok, m', log', hrun, hm', hok, -, hst⟩ := hv.write_cluster hm fs.boot.rootDirCluster
    (putEntrySet fs.rootBuf (dirEnd fs.rootBuf fs.bpc fs.bpc 0) fname size cc) hissued
  refine ⟨ok, m', log', ?_, hm', hok, hst⟩
  refine (if_neg (Nat.not_lt.mpr hroom)).trans ?_
  have hput : (fs.withMedia m log).secWr
      ((fs.withMedia m log).clusterToLba (fs.withMedia m log).boot.rootDirCluster) fs.spc
      (putEntrySet fs.rootBuf (dirEnd fs.rootBuf fs.bpc fs.bpc 0) fname size cc) =
        (ok, fs.withMedia m' log') := hrun
  rw [withMedia_bpc, hdn, if_neg (by omega), hput]
  cases ok with
  | false => rfl
  | true => rfl

end Steps

/-- A call that has chosen a cluster: what each step it gets to stores, and where it stops. -/
theorem WriteVolume.chosen_outcome {fs : Exfat} (hv : WriteVolume fs)
    (log : List (Nat × Nat)) (cc : Nat) (fname : List Byte)
    (data : Buf) {size : Nat} (hsize : size ≤ fs.bpc) {r : WriteRun}
    (hr : r = (fs.after (fs.bump (fs.spc + fs.spc)) fs.tmp log).writeChosen fs.rootBuf fs.bitmapBuf
      fs.bitmapCluster cc fname data size) :
    ∃ m3 log3, Media.Stores fs.cell (fs.withMedia m3 log3).cell ((size + 511) / 512)
        (fs.DataStored fs.dataStart) (fs.cellAddr cc)
        (fun k => dataSector (fs.cell (fs.cellAddr cc k)) data size k) ∧
      ((¬ fs.DataCopied size ∧ r.code ≠ 0 ∧ r.fs = fs.withMedia m3 log3) ∨
      (fs.DataCopied size ∧ ∃ m4 log4,
        Media.Stores (fs.withMedia m3 log3).cell (fs.withMedia m4 log4).cell fs.spc
          (fs.Stored (fs.bitmapStart size) fs.spc) (fs.putAddr fs.bitmapCluster)
          (fun j i => setBit fs.bitmapBuf cc (j * 512 + i)) ∧
        m4.faults = fs.disks.media.faults ∧
        ((¬ (fs.Done (fs.bitmapStart size) fs.spc ∧ fs.Room) ∧ r.code ≠ 0 ∧
          r.fs = fs.withMedia m4 log4) ∨
        (fs.Done (fs.bitmapStart size) fs.spc ∧ fs.Room ∧ ∃ m5 log5,
          Media.Stores (fs.withMedia m4 log4).cell (fs.withMedia m5 log5).cell fs.spc
            (fs.Stored (fs.dirStart size) fs.spc) (fs.putAddr fs.boot.rootDirCluster)
            (fun j i => putEntrySet fs.rootBuf (dirEnd fs.rootBuf fs.bpc fs.bpc 0) fname size cc
              (j * 512 + i)) ∧
          (r.code = 0 ↔ fs.Done (fs.dirStart size) fs.spc) ∧
          m5.faults = fs.disks.media.faults ∧ r.fs = fs.withMedia m5 log5)))) := by
  obtain ⟨code, lbas, m3, log3, hrun3, hm3, hcode, hissued3, hst3⟩ :=
    @WriteVolume.data_step fs hv { fs.disks.media with issued := fs.bump (fs.spc + fs.spc) } log
      rfl size hsize cc data rfl (bump_dev fs _)
  refine ⟨m3, log3, hst3, ?_⟩
  unfold writeChosen at hr
  rw [after_clusterToLba, show fs.after (fs.bump (fs.spc + fs.spc)) fs.tmp log =
    fs.withMedia { fs.disks.media with issued := fs.bump (fs.spc + fs.spc) } log from rfl,
    hrun3] at hr
  dsimp only at hr
  by_cases hcopied : fs.DataCopied size
  · rw [if_neg (not_not.mpr (hcode.mpr hcopied)), withMedia_clusterToLba, withMedia_spc] at hr
    obtain ⟨ok4, m4, log4, hrun4, hm4, hok4, hissued4, hst4⟩ := hv.write_cluster hm3
      fs.bitmapCluster (setBit fs.bitmapBuf cc) (hissued3 (hcode.mpr hcopied))
    refine .inr ⟨hcopied, m4, log4, hst4, hm4, ?_⟩
    rw [hrun4] at hr
    cases ok4 with
    | false =>
      rw [hr]
      exact .inl ⟨fun h => absurd (hok4.mpr h.1) Bool.false_ne_true, show (-4 : Int) ≠ 0 by decide, rfl⟩
    | true =>
      have hdone := hok4.mp rfl
      dsimp only at hr
      by_cases hroom : fs.Room
      · obtain ⟨ok5, m5, log5, hentry, hm5, hok5, hst5⟩ :=
          hv.entry_step hm4 hroom fname size cc (hissued4 rfl)
        rw [hentry] at hr
        refine .inr ⟨hdone, hroom, m5, log5, hst5, ?_, hm5, by rw [hr]⟩
        rw [hr]
        refine Iff.trans ?_ hok5
        change (if ok5 = true then (0 : Int) else -5) = 0 ↔ ok5 = true
        cases ok5 <;> decide
      · have hentry : (fs.withMedia m4 log4).writeEntry fs.rootBuf fname size cc =
            (-6, fs.withMedia m4 log4) := if_pos (Nat.not_le.mp hroom)
        rw [hentry] at hr
        rw [hr]
        exact .inl ⟨fun h => hroom h.2, show (-6 : Int) ≠ 0 by decide, rfl⟩
  · have hne : code ≠ 0 := fun h => hcopied (hcode.mp h)
    rw [if_pos hne] at hr
    rw [hr]
    exact .inl ⟨hcopied, hne, rfl⟩

/-! ### What is kept -/

section Kept

variable {fs : Exfat}

/-- A sector of the new bitmap is as on the disk unless it holds the new bit. -/
theorem bitmap_sector_iff {cc j : Nat} (hclear : fs.seen cc = false) (hj : j < fs.spc) :
    (∀ i < 512, setBit fs.bitmapBuf cc (j * 512 + i) =
      fs.cell (fs.cellAddr fs.bitmapCluster j) i) ↔ j ≠ cc / 4096 := by
  have hread : ∀ i < 512, fs.bitmapBuf (j * 512 + i) = fs.cell (fs.cellAddr fs.bitmapCluster j) i :=
    fun i hi => by
      unfold bitmapBuf
      rw [blit_in (by omega) (by omega), Nat.sub_zero]
      change fs.cell (fs.cellAddr fs.bitmapCluster ((j * 512 + i) / 512)) ((j * 512 + i) % 512) = _
      rw [show (j * 512 + i) / 512 = j by omega, show (j * 512 + i) % 512 = i by omega]
  constructor
  · rintro hsame rfl
    have hat : cc / 4096 * 512 + cc / 8 % 512 = cc / 8 := by omega
    have hbyte := hsame (cc / 8 % 512) (by omega)
    rw [← hread _ (by omega), hat] at hbyte
    have hset := bit_congr hbyte
    rw [bit_setBit, decide_eq_true rfl, Bool.or_true] at hset
    rw [show fs.seen cc = bit fs.bitmapBuf cc from rfl, ← hset] at hclear
    cases hclear
  · intro hne i hi
    rw [← hread i hi]
    exact if_neg (by omega)

theorem cluster_same_iff (hspc : fs.spc ≤ 2 ^ 28) {n c : Nat} {old new : Nat → Buf}
    {content : Nat → Buf} (h : Media.Stores old new fs.spc (fs.Stored n fs.spc) (fs.putAddr c) content)
    {Q : Nat → Prop} (hQ : ∀ a, Q a → a < 2 ^ 32) (base : Nat → Buf) :
    (∀ a, Q a → ∀ i < 512, new a i = base a i) ↔
      (∀ j < fs.spc, fs.Rewrites n c (fs.cellAddr c j) → Q (fs.cellAddr c j) →
        ∀ i < 512, content j i = base (fs.cellAddr c j) i) ∧
      ∀ a, (Q a ∧ ¬ fs.Rewrites n c a) → ∀ i < 512, old a i = base a i := by
  rw [h.same_iff Q base]
  refine and_congr (forall₂_congr fun j hj => ?_) (forall_congr' fun a => imp_congr_left ?_)
  · rw [rewrites_own_iff hspc hj]
    constructor
    · rintro hin ⟨hst, hput⟩
      rw [hput] at hin
      exact hin hst
    · intro hin hst hq
      have hput := putAddr_of_lt (hQ _ hq)
      rw [hput] at hq ⊢
      exact hin ⟨hst, hput⟩ hq
  · refine and_congr_right fun _ => ⟨?_, ?_⟩
    · rintro hout ⟨j, hj, hst, heq⟩
      exact hout j hj hst heq
    · exact fun hno j hj hst heq => hno ⟨j, hj, hst, heq⟩

theorem same_after_bitmap (hspc : fs.spc ≤ 2 ^ 28) {cc size : Nat} {data : Buf}
    {m3 m4 : Media Dev} {log3 log4 : List (Nat × Nat)} (hclear : fs.seen cc = false)
    (hcopied : fs.DataCopied size)
    (h3 : Media.Stores fs.cell (fs.withMedia m3 log3).cell ((size + 511) / 512)
      (fs.DataStored fs.dataStart) (fs.cellAddr cc)
      fun k => dataSector (fs.cell (fs.cellAddr cc k)) data size k)
    (h4 : Media.Stores (fs.withMedia m3 log3).cell (fs.withMedia m4 log4).cell fs.spc
      (fs.Stored (fs.bitmapStart size) fs.spc) (fs.putAddr fs.bitmapCluster)
      fun j i => setBit fs.bitmapBuf cc (j * 512 + i)) {Q : Nat → Prop} (hQ : ∀ a, Q a → a < 2 ^ 32) :
    (∀ a, Q a → ∀ i < 512, (fs.withMedia m4 log4).cell a i = fs.cell a i) ↔
      (cc / 4096 < fs.spc →
        fs.Rewrites (fs.bitmapStart size) fs.bitmapCluster (fs.cellAddr fs.bitmapCluster (cc / 4096)) →
        ¬ Q (fs.cellAddr fs.bitmapCluster (cc / 4096))) ∧
      ∀ k < (size + 511) / 512, Q (fs.cellAddr cc k) → fs.SameData data size cc k ∨
        fs.Rewrites (fs.bitmapStart size) fs.bitmapCluster (fs.cellAddr cc k) := by
  have hall : ∀ k < (size + 511) / 512, fs.DataStored fs.dataStart k := fun k hk =>
    ⟨fun i hi => hcopied i (by omega), Media.keeps_of_ok (hcopied (2 * k + 1) (by omega)).2 0⟩
  rw [cluster_same_iff hspc h4 hQ fs.cell, h3.same_iff _ fs.cell]
  refine and_congr ⟨fun h hlt hre hq => ?_, fun h j hj hre hq => ?_⟩
    ⟨fun h k hk hq => ?_, fun h => ⟨fun k hk _ hq => ?_, fun a _ i _ => rfl⟩⟩
  · exact (bitmap_sector_iff hclear hlt).mp (h _ hlt hre hq) rfl
  · refine (bitmap_sector_iff hclear hj).mpr ?_
    rintro rfl
    exact h hj hre hq
  · by_cases hre : fs.Rewrites (fs.bitmapStart size) fs.bitmapCluster (fs.cellAddr cc k)
    · exact .inr hre
    · exact .inl (h.1 k hk (hall k hk) ⟨hq, hre⟩)
  · rcases h k hk hq.1 with hsame | hre
    · exact hsame
    · exact absurd hre hq.2

section Stopped

variable {Q : Nat → Prop} (hv : WriteVolume fs) (hQ : ∀ a, Q a → a < 2 ^ 32)
include hv

theorem WriteVolume.spc_le : fs.spc ≤ 2 ^ 28 := by
  have hsmall : fs.bpc ≤ 8192 := hv.small
  have := hv.bpc
  omega

variable {cc size : Nat} {data : Buf} {m3 m4 m5 : Media Dev} {log3 log4 log5 : List (Nat × Nat)}
  (h3 : Media.Stores fs.cell (fs.withMedia m3 log3).cell ((size + 511) / 512)
    (fs.DataStored fs.dataStart) (fs.cellAddr cc)
    fun k => dataSector (fs.cell (fs.cellAddr cc k)) data size k)
include h3

omit hv in
/-- What a call that stops in step 3 leaves. -/
theorem kept_data_iff (fname : List Byte) (hcopied : ¬ fs.DataCopied size) :
    fs.SectorsKept Q (fs.withMedia m3 log3) ↔
      fs.Completes size ∨ fs.StopsInData Q data size cc ∨ fs.StopsInBitmap Q data size cc ∨
        fs.StopsInDirectory Q fname data size cc := by
  unfold SectorsKept
  rw [h3.same_iff _ fs.cell]
  constructor
  · exact fun h => .inr (.inl ⟨hcopied, fun k hk hst hq => h.1 k hk hst hq⟩)
  · rintro (h | h | h | h)
    · exact absurd h.1 hcopied
    · exact ⟨fun k hk hst hq => h.2 k hk hst hq, fun a _ i _ => rfl⟩
    · exact absurd h.1 hcopied
    · exact absurd h.1 hcopied

variable (hclear : fs.seen cc = false) (hcopied : fs.DataCopied size)
  (h4 : Media.Stores (fs.withMedia m3 log3).cell (fs.withMedia m4 log4).cell fs.spc
    (fs.Stored (fs.bitmapStart size) fs.spc) (fs.putAddr fs.bitmapCluster)
    fun j i => setBit fs.bitmapBuf cc (j * 512 + i))
include hQ hclear hcopied h4

/-- What a call that stops in step 4, or for want of room, leaves. -/
theorem WriteVolume.kept_bitmap_iff (fname : List Byte)
    (hlate : ¬ (fs.Done (fs.bitmapStart size) fs.spc ∧ fs.Room)) :
    fs.SectorsKept Q (fs.withMedia m4 log4) ↔
      fs.Completes size ∨ fs.StopsInData Q data size cc ∨ fs.StopsInBitmap Q data size cc ∨
        fs.StopsInDirectory Q fname data size cc := by
  unfold SectorsKept
  rw [same_after_bitmap hv.spc_le hclear hcopied h3 h4 hQ]
  constructor
  · rintro ⟨hbit, hdata⟩
    by_cases hdone : fs.Done (fs.bitmapStart size) fs.spc
    · refine .inr (.inr (.inr ⟨hcopied, hdone, fun hroom => absurd ⟨hdone, hroom⟩ hlate,
        fun hin hre hq => absurd hq (hbit hin hre), fun k hk hq => ?_⟩))
      rcases hdata k hk hq with hsame | hre
      · exact .inl hsame
      · exact .inr (.inl hre)
    · exact .inr (.inr (.inl ⟨hcopied, hdone, hbit, hdata⟩))
  · rintro (h | h | h | h)
    · exact absurd ⟨h.2.1, h.2.2.1⟩ hlate
    · exact absurd hcopied h.1
    · exact h.2.2
    · obtain ⟨-, hdone, -, hbit, hdata⟩ := h
      have hroom : ¬ fs.Room := fun hroom => hlate ⟨hdone, hroom⟩
      refine ⟨fun hin hre hq => absurd (hbit hin hre hq).1 hroom, fun k hk hq => ?_⟩
      rcases hdata k hk hq with hsame | hre | hre
      · exact .inl hsame
      · exact .inr hre
      · exact absurd hre.1 hroom

/-- What a call that stops in the write of the directory leaves. -/
theorem WriteVolume.kept_directory_iff (fname : List Byte)
    (h5 : Media.Stores (fs.withMedia m4 log4).cell (fs.withMedia m5 log5).cell fs.spc
      (fs.Stored (fs.dirStart size) fs.spc) (fs.putAddr fs.boot.rootDirCluster)
      fun j i => putEntrySet fs.rootBuf (dirEnd fs.rootBuf fs.bpc fs.bpc 0) fname size cc
        (j * 512 + i)) (hdone : fs.Done (fs.bitmapStart size) fs.spc) (hroom : fs.Room)
    (hend : ¬ fs.Done (fs.dirStart size) fs.spc) :
    fs.SectorsKept Q (fs.withMedia m5 log5) ↔
      fs.Completes size ∨ fs.StopsInData Q data size cc ∨ fs.StopsInBitmap Q data size cc ∨
        fs.StopsInDirectory Q fname data size cc := by
  unfold SectorsKept
  rw [cluster_same_iff hv.spc_le h5 hQ fs.cell,
    same_after_bitmap hv.spc_le hclear hcopied h3 h4 fun a h => hQ a h.1]
  constructor
  · rintro ⟨hentry, hbit, hdata⟩
    refine .inr (.inr (.inr ⟨hcopied, hdone, fun _ => ⟨hend, hentry⟩,
      fun hin hre hq => ⟨hroom, ?_⟩, fun k hk hq => ?_⟩))
    · by_contra hno
      exact hbit hin hre ⟨hq, hno⟩
    · by_cases hre : fs.Rewrites (fs.dirStart size) fs.boot.rootDirCluster (fs.cellAddr cc k)
      · exact .inr (.inr ⟨hroom, hre⟩)
      · rcases hdata k hk ⟨hq, hre⟩ with hsame | hmapped
        · exact .inl hsame
        · exact .inr (.inl hmapped)
  · rintro (h | h | h | h)
    · exact absurd h.2.2.2 hend
    · exact absurd hcopied h.1
    · exact absurd hdone h.2.1
    · obtain ⟨-, -, hentry, hbit, hdata⟩ := h
      refine ⟨(hentry hroom).2, fun hin hre hq => hq.2 (hbit hin hre hq.1).2, fun k hk hq => ?_⟩
      rcases hdata k hk hq.1 with hsame | hre | hre
      · exact .inl hsame
      · exact .inr hre
      · exact absurd hre.2 hq.2

end Stopped

end Kept

/-! ### The whole call -/

section Call

variable {fs : Exfat} (hv : fs.ok = true → WriteVolume fs) (fname : List Byte) (data : Buf)
  (size : Nat)
include hv

/-- A call that chooses no cluster fails and writes nothing. Any other call goes on with the first
clear bit. -/
theorem write_cases :
    ((∀ cc, ¬ (fs.ok = true ∧ fs.Searches fname size ∧ fs.FirstClear cc)) ∧
      (fs.exfatWriteFile fname data size).code ≠ 0 ∧
      ∃ m log, m.data = fs.disks.media.data ∧
        (fs.exfatWriteFile fname data size).fs = fs.withMedia m log) ∨
    ∃ cc log, fs.ok = true ∧ fs.Searches fname size ∧ fs.FirstClear cc ∧
      fs.exfatWriteFile fname data size =
        (fs.after (fs.bump (fs.spc + fs.spc)) fs.tmp log).writeChosen fs.rootBuf fs.bitmapBuf
          fs.bitmapCluster cc fname data size := by
  by_cases hok : fs.ok = true
  · by_cases hs : fs.Searches fname size
    · rcases (hv hok).toSectorVolume.searched data hs with ⟨hall, n, log, hrun⟩ | ⟨cc, log, hcc, hrun⟩
      · rw [hrun]
        refine .inl ⟨fun cc ⟨_, _, hcc⟩ => ?_, show (-5 : Int) ≠ 0 by decide,
          { fs.disks.media with issued := n }, log, rfl, rfl⟩
        have hset := hall cc hcc.1 hcc.2.1
        rw [hcc.2.2.1] at hset
        cases hset
      · exact .inr ⟨cc, log, hok, hs, hcc, hrun⟩
    · obtain ⟨code, n, log, hrun, -, hcode⟩ := (hv hok).toSectorVolume.early data hs
      rw [hrun]
      exact .inl ⟨fun cc h => hs h.2.1, hcode, { fs.disks.media with issued := n }, log, rfl, rfl⟩
  · have hrun : fs.exfatWriteFile fname data size = .early (-1) fs := if_neg hok
    rw [hrun]
    exact .inl ⟨fun cc h => hok h.1, show (-1 : Int) ≠ 0 by decide, fs.disks.media, fs.log, rfl, rfl⟩

/-- The call returns 0 exactly if it gets to choose a cluster and completes. -/
theorem write_zero_iff :
    (fs.exfatWriteFile fname data size).code = 0 ↔ fs.Succeeds fname size := by
  rcases write_cases hv fname data size with ⟨hno, hcode, -⟩ | ⟨cc, log, hok, hs, hcc, hrun⟩
  · exact iff_of_false hcode fun ⟨hok, hs, ⟨cc, hcc⟩, _⟩ => hno cc ⟨hok, hs, hcc⟩
  · obtain ⟨m3, log3, -, hstop⟩ := (hv hok).chosen_outcome log cc fname data hs.2.1 hrun
    have hchosen : fs.Succeeds fname size ↔ fs.Completes size :=
      ⟨fun h => h.2.2.2, fun h => ⟨hok, hs, ⟨cc, hcc⟩, h⟩⟩
    rw [hchosen]
    rcases hstop with ⟨hcopied, hcode, -⟩ | ⟨hcopied, m4, log4, -, -, hstop⟩
    · exact iff_of_false hcode fun h => hcopied h.1
    rcases hstop with ⟨hlate, hcode, -⟩ | ⟨hdone, hroom, m5, log5, -, hcode, -⟩
    · exact iff_of_false hcode fun h => hlate ⟨h.2.1, h.2.2.1⟩
    · exact hcode.trans ⟨fun h => ⟨hcopied, hdone, hroom, h⟩, fun h => h.2.2.2⟩

/-- A call that fails leaves the sectors of `Q` as they were exactly if it gives up before it chooses
a cluster, or before a write of it has changed one of them for good. -/
theorem sectorsKept_iff {Q : Nat → Prop} (hQ : ∀ a, Q a → a < 2 ^ 32) :
    ((fs.exfatWriteFile fname data size).code ≠ 0 →
      fs.SectorsKept Q (fs.exfatWriteFile fname data size).fs) ↔
      fs.GivesUpCleanly Q fname data size := by
  rcases write_cases hv fname data size with
    ⟨hno, -, m, log, hdata, hfs⟩ | ⟨cc, log, hok, hs, hcc, hrun⟩
  · rw [hfs]
    refine iff_of_true (fun _ a _ i _ => ?_) fun hok hs cc hcc => absurd ⟨hok, hs, hcc⟩ (hno cc)
    exact congrArg (fun d => Media.sector { m with data := d } fs.dev a i) hdata
  have hcond : fs.GivesUpCleanly Q fname data size ↔ fs.Completes size ∨
      fs.StopsInData Q data size cc ∨ fs.StopsInBitmap Q data size cc ∨
        fs.StopsInDirectory Q fname data size cc :=
    ⟨fun h => h hok hs cc hcc, fun h _ _ c hc => by rwa [hc.unique hcc]⟩
  obtain ⟨m3, log3, h3, hstop⟩ := (hv hok).chosen_outcome log cc fname data hs.2.1 hrun
  rw [hcond]
  rcases hstop with ⟨hcopied, hcode, hfs⟩ | ⟨hcopied, m4, log4, h4, -, hstop⟩
  · rw [hfs, kept_data_iff h3 fname hcopied]
    exact forall_prop_of_true hcode
  rcases hstop with ⟨hlate, hcode, hfs⟩ | ⟨hdone, hroom, m5, log5, h5, hcode, -, hfs⟩
  · rw [hfs, (hv hok).kept_bitmap_iff hQ h3 hcc.2.2.1 hcopied h4 fname hlate]
    exact forall_prop_of_true hcode
  · by_cases hend : fs.Done (fs.dirStart size) fs.spc
    · exact iff_of_true (fun h => absurd (hcode.mpr hend) h) (.inl ⟨hcopied, hdone, hroom, hend⟩)
    · rw [hfs, (hv hok).kept_directory_iff hQ h3 hcc.2.2.1 hcopied h4 fname h5 hdone hroom hend]
      exact forall_prop_of_true fun h => hend (hcode.mp h)

/-- A call moves on the devices and in the log only. -/
theorem write_media :
    ∃ m log, (fs.exfatWriteFile fname data size).fs = fs.withMedia m log := by
  rcases write_cases hv fname data size with ⟨-, -, m, log, -, hfs⟩ | ⟨cc, log, hok, hs, -, hrun⟩
  · exact ⟨m, log, hfs⟩
  · obtain ⟨m3, log3, -, hstop⟩ := (hv hok).chosen_outcome log cc fname data hs.2.1 hrun
    rcases hstop with ⟨-, -, hfs⟩ | ⟨-, m4, log4, -, -, ⟨-, -, hfs⟩ | ⟨-, -, m5, log5, -, -, -, hfs⟩⟩
    · exact ⟨m3, log3, hfs⟩
    · exact ⟨m4, log4, hfs⟩
    · exact ⟨m5, log5, hfs⟩

/-- A call that fails leaves bitmap and root directory as they were exactly if it gives up
before it chooses a cluster, or before a write of it has changed them for good. -/
theorem atomicOnFailure_iff (P : Nat → Prop) :
    fs.AtomicOnFailure P (fs.exfatWriteFile fname data size) ↔
      fs.GivesUpCleanly (fs.Protected P) fname data size := by
  rw [← sectorsKept_iff hv fname data size fun a h => h.lt]
  by_cases hok : fs.ok = true
  · obtain ⟨m, log, hfs⟩ := write_media hv fname data size
    unfold AtomicOnFailure
    rw [hfs, metadataKept_iff (hv hok).toSectorVolume]
    exact Iff.rfl
  · have hrun : fs.exfatWriteFile fname data size = .early (-1) fs := if_neg hok
    rw [hrun]
    exact iff_of_true (fun _ c _ j _ => rfl) fun _ a _ i _ => rfl

end Call

/-- A volume of eight clusters of one sector, mounted from an ATA disk at sector 64: the bitmap
is in cluster 3, the root directory in 5 and the up-case table in 6. The other entries of the
directory are those of deleted files, up to its end. -/
def fullRoot : Exfat :=
  mounted 0 5 fun i =>
    match i with
    | 38400 => 0x1A
    | 39424 => 0x81
    | 39444 => 3
    | 39456 => 0x82
    | 39476 => 6
    | i => if 39488 ≤ i ∧ i < 39936 ∧ i % 32 = 0 then 0x05 else 0

theorem fullRoot_writeVolume : WriteVolume fullRoot where
  ok := rfl
  bps := rfl
  spc := Nat.one_pos
  bpc := rfl
  small := by decide

theorem atomicOnFailure_iff_fullRoot :
    fullRoot.AtomicOnFailure (fun c => c = 3 ∨ c = 5)
        (fullRoot.exfatWriteFile [0x41] (fun _ => 0x41) 1) ↔
      fullRoot.GivesUpCleanly (fullRoot.Protected fun c => c = 3 ∨ c = 5) [0x41] (fun _ => 0x41) 1 :=
  atomicOnFailure_iff (fun _ => fullRoot_writeVolume) [0x41] (fun _ => 0x41) 1 fun c => c = 3 ∨ c = 5

/-- The directory is full, no command fails, and the bit of the new file stays set. -/
theorem leaks_cluster :
    WriteVolume fullRoot ∧ (fullRoot.exfatWriteFile [0x41] (fun _ => 0x41) 1).code = -6 ∧
    ¬ fullRoot.AtomicOnFailure
      (fun c => c = fullRoot.boot.rootDirCluster ∨ c = fullRoot.bitmapCluster)
      (fullRoot.exfatWriteFile [0x41] (fun _ => 0x41) 1) := by
  have hcode : (fullRoot.exfatWriteFile [0x41] (fun _ => 0x41) 1).code = -6 := by decide +kernel
  refine ⟨fullRoot_writeVolume, hcode, fun h => ?_⟩
  have hkept := h (by rw [hcode]; decide) fullRoot.bitmapCluster (.inr rfl) 0 (by decide)
  exact absurd hkept (by decide +kernel)

end Exfat

end WinDOS
