import WinDOS.Fs.Writes

/-!
# Which cluster `exfat_write_file` takes

On disk, bit `k` of the allocation bitmap describes cluster `k + 2`. The driver tests and sets
bit `c` for cluster `c`, and looks at the clusters below `cluster_count` only.
-/

set_option autoImplicit false

namespace WinDOS

open Bytes

namespace Exfat

/-- The bitmap cluster named in the first cluster of the root directory; 0 if none is. -/
def bitmapCluster (fs : Exfat) : Nat :=
  bitmapEntry (fs.clusterBytes fs.boot.rootDirCluster) fs.bpc fs.bpc 0

/-- A mounted exFAT volume on a medium with sectors of 512 bytes. `marked` is its allocation
bitmap, `used` are the clusters of files, root directory, bitmap and up-case table. -/
structure AllocVolume (fs : Exfat) (marked : Nat → Bool) (used : Nat → Prop) : Prop where
  ok : fs.ok = true
  bps : fs.bps = 512
  spc : 0 < fs.spc
  bpc : fs.bpc = 512 * fs.spc
  root : used fs.boot.rootDirCluster
  bitmapUsed : fs.bitmapCluster ≠ 0 → used fs.bitmapCluster
  inHeap : ∀ c, used c → 2 ≤ c ∧ c ≤ fs.boot.clusterCount + 1
  usedMarked : ∀ c, used c → marked (c - 2) = true
  /-- The first cluster of the bitmap; the rest of a larger bitmap lies elsewhere. -/
  bitmap : fs.bitmapCluster ≠ 0 → ∀ k < fs.boot.clusterCount, k < 8 * fs.bpc →
    bit (fs.clusterBytes fs.bitmapCluster) k = marked k

/-- The allocation of a call is right: data goes to a cluster that is marked free, the bit that
is set is the bit of that cluster, and -5 is returned on a full volume only. -/
structure AllocRight (fs : Exfat) (marked : Nat → Bool) (used : Nat → Prop) (r : WriteRun) :
    Prop where
  free : r.dataLbas ≠ [] → 2 ≤ r.freeCluster ∧ r.freeCluster ≤ fs.boot.clusterCount + 1 ∧
    marked (r.freeCluster - 2) = false ∧ ¬ used r.freeCluster
  place : ∀ lba ∈ r.dataLbas, ∃ i < fs.spc,
    lba = wrap32 (fs.partLba + fs.boot.clusterHeapOffset + (r.freeCluster - 2) * fs.spc + i)
  bitmap : ∀ bm, r.bitmapOut = some bm → marked (r.freeCluster - 2) = false ∧
    r.freeCluster - 2 < 8 * fs.bpc ∧ ∀ k < 8 * fs.bpc,
      bit bm k = (bit (fs.clusterBytes fs.bitmapCluster) k || decide (k = r.freeCluster - 2))
  full : r.code = -5 → ∀ k < fs.boot.clusterCount, marked k = true

/-- The bits the search sees: those of the first bitmap cluster, then those the stack holds. -/
def seen (fs : Exfat) (k : Nat) : Bool :=
  bit (blit fs.stack 0 (fs.clusterBytes fs.bitmapCluster) (fs.spc * 512)) k

/-- The commands that read the root directory are served. -/
def RootRead (fs : Exfat) : Prop := ∀ j < fs.spc, fs.served (fs.issued + j)

/-- The commands that read the bitmap are served. -/
def BitmapRead (fs : Exfat) : Prop := ∀ j < fs.spc, fs.served (fs.issued + fs.spc + j)

/-- The two commands for each sector of the data are served. -/
def DataCopied (fs : Exfat) (size : Nat) : Prop :=
  ∀ j < 2 * ((size + 511) / 512), fs.served (fs.issued + (fs.spc + fs.spc) + j)

/-- The call gets to its search for a cluster. -/
def Searches (fs : Exfat) (fname : List Byte) (size : Nat) : Prop :=
  nameLen fname ≠ 0 ∧ size ≤ fs.bpc ∧ fs.RootRead ∧ fs.bitmapCluster ≠ 0 ∧ fs.BitmapRead

/-- `cc` is the first cluster from 2 on, below `cluster_count`, whose own number is the number
of a clear bit. -/
def FirstClear (fs : Exfat) (cc : Nat) : Prop :=
  2 ≤ cc ∧ cc < fs.boot.clusterCount ∧ fs.seen cc = false ∧
    ∀ c, 2 ≤ c → c < cc → fs.seen c = true

theorem FirstClear.unique {fs : Exfat} {c d : Nat} (hc : fs.FirstClear c) (hd : fs.FirstClear d) :
    c = d := by
  rcases Nat.lt_trichotomy c d with hlt | heq | hgt
  · have := hd.2.2.2 c hc.1 hlt
    rw [hc.2.2.1] at this
    cases this
  · exact heq
  · have := hc.2.2.2 d hd.1 hgt
    rw [hd.2.2.1] at this
    cases this

/-! ### The call, case by case -/

theorem clusterToLba_of_two_le (fs : Exfat) {c : Nat} (hc : 2 ≤ c) (i : Nat) :
    wrap32 (fs.clusterToLba c + i) =
      wrap32 (fs.partLba + fs.boot.clusterHeapOffset + (c - 2) * fs.spc + i) := by
  have hsplit : (c + (2 ^ 32 - 2)) * fs.spc = (c - 2) * fs.spc + 2 ^ 32 * fs.spc := by
    rw [← Nat.add_mul]
    congr 1
    omega
  unfold clusterToLba
  rw [wrap32_wrap32_add, hsplit]
  unfold wrap32
  rw [show fs.partLba + fs.boot.clusterHeapOffset + ((c - 2) * fs.spc + 2 ^ 32 * fs.spc) + i =
    fs.partLba + fs.boot.clusterHeapOffset + (c - 2) * fs.spc + i + 2 ^ 32 * fs.spc by omega,
    Nat.add_mul_mod_self_left]

/-- A mounted volume on a medium with sectors of 512 bytes, whatever it holds. -/
structure SectorVolume (fs : Exfat) : Prop where
  ok : fs.ok = true
  bps : fs.bps = 512
  spc : 0 < fs.spc
  bpc : fs.bpc = 512 * fs.spc

theorem AllocVolume.sectors {fs : Exfat} {marked : Nat → Bool} {used : Nat → Prop}
    (hv : AllocVolume fs marked used) : SectorVolume fs := ⟨hv.ok, hv.bps, hv.spc, hv.bpc⟩

section Volume

variable {fs : Exfat} (hv : SectorVolume fs)
include hv

theorem SectorVolume.bitmapEntry_root :
    bitmapEntry (blit fs.stack 0 (fs.clusterBytes fs.boot.rootDirCluster) (fs.spc * 512)) fs.bpc
      fs.bpc 0 = fs.bitmapCluster := by
  refine bitmapEntry_congr (fun i hi => ?_) ?_ _ (Nat.dvd_zero 32)
  · have := hv.bpc
    rw [blit_in (by omega) (by omega), Nat.sub_zero]
  · rw [hv.bpc]
    omega

/-- A call that does not get to the search fails with another code and writes nothing. -/
theorem SectorVolume.early {fname : List Byte} (data : Buf) {size : Nat}
    (h : ¬ fs.Searches fname size) :
    ∃ code n log, fs.exfatWriteFile fname data size = .early code (fs.after n fs.tmp log) ∧
      code ≠ -5 ∧ code ≠ 0 := by
  unfold exfatWriteFile
  rw [if_pos hv.ok]
  by_cases hname : nameLen fname = 0 ∨ size > fs.bpc
  · rw [if_pos hname]
    exact ⟨_, fs.disks.media.issued, fs.log, rfl, by decide, by decide⟩
  rw [if_neg hname]
  by_cases hroot : fs.RootRead
  · obtain ⟨log, hrd⟩ := readCluster_served hv.bps hroot fs.boot.rootDirCluster fs.stack
    rw [hrd]
    dsimp only
    rw [after_bpc, hv.bitmapEntry_root]
    by_cases hbm : fs.bitmapCluster = 0
    · rw [if_pos hbm]
      exact ⟨_, _, log, rfl, by decide, by decide⟩
    rw [if_neg hbm]
    have hmap : ¬ fs.BitmapRead := fun hmap =>
      h ⟨fun h0 => hname (.inl h0), by omega, hroot, hbm, hmap⟩
    obtain ⟨buf, m, log', hfail⟩ := @readCluster_failed (fs.after (fs.bump fs.spc) fs.tmp log)
      (fun hall => hmap fun j hj => by
        have := hall j hj
        rwa [after_served, after_issued, bump_dev] at this) fs.bitmapCluster fs.stack
    rw [after_stack, hfail]
    exact ⟨_, m, log', rfl, by decide, by decide⟩
  · obtain ⟨buf, m, log, hfail⟩ := readCluster_failed hroot fs.boot.rootDirCluster fs.stack
    rw [hfail]
    exact ⟨_, m, log, rfl, by decide, by decide⟩

/-- A call that searches returns -5, or goes on with the first clear bit it sees. -/
theorem SectorVolume.searched {fname : List Byte} (data : Buf) {size : Nat}
    (h : fs.Searches fname size) :
    ((∀ c, 2 ≤ c → c < fs.boot.clusterCount → fs.seen c = true) ∧
      ∃ n log, fs.exfatWriteFile fname data size = .early (-5) (fs.after n fs.tmp log)) ∨
    ∃ cc log, fs.FirstClear cc ∧ fs.exfatWriteFile fname data size =
      (fs.after (fs.bump (fs.spc + fs.spc)) fs.tmp log).writeChosen
        (blit fs.stack 0 (fs.clusterBytes fs.boot.rootDirCluster) (fs.spc * 512))
        (blit fs.stack 0 (fs.clusterBytes fs.bitmapCluster) (fs.spc * 512)) fs.bitmapCluster cc
        fname data size := by
  obtain ⟨hname, hsize, hroot, hbm, hmap⟩ := h
  obtain ⟨log, hrd⟩ := readCluster_served hv.bps hroot fs.boot.rootDirCluster fs.stack
  obtain ⟨log', hrd'⟩ := @readCluster_served (fs.after (fs.bump fs.spc) fs.tmp log) hv.bps
    (fun j hj => by
      rw [after_served, after_issued, bump_dev]
      exact hmap j hj) fs.bitmapCluster fs.stack
  rw [after_spc, after_clusterBytes, after_tmp, after_bump, after_after] at hrd'
  unfold exfatWriteFile
  rw [if_pos hv.ok, if_neg (by omega), hrd]
  dsimp only
  rw [after_bpc, hv.bitmapEntry_root, if_neg hbm, after_stack, hrd']
  dsimp only
  rw [after_boot]
  rcases searchBitmap_cases (blit fs.stack 0 (fs.clusterBytes fs.bitmapCluster) (fs.spc * 512))
    (fs.boot.clusterCount - 2) 2 with ⟨hnone, hall⟩ | ⟨cc, hcc, h0, h1, hclear, hall⟩
  · rw [hnone, if_pos rfl]
    exact .inl ⟨fun c h0 h1 => hall c h0 (by omega), _, _, rfl⟩
  · rw [hcc, if_neg (by omega)]
    exact .inr ⟨cc, _, ⟨h0, by omega, hclear, hall⟩, rfl⟩

end Volume

theorem writeChosen_cases (fs : Exfat) (rd bm : Buf) (bmCluster cc : Nat) (fname : List Byte)
    (data : Buf) (size : Nat) :
    let r := fs.writeChosen rd bm bmCluster cc fname data size
    let d := writeData (fs.clusterToLba cc) data size fs ((size + 511) / 512) 0
    r.freeCluster = cc ∧ r.dataLbas = d.2.1 ∧
      (d.1 ≠ 0 → r.code = d.1 ∧ r.bitmapOut = none) ∧
      (d.1 = 0 → r.bitmapOut = some (setBit bm cc)) := by
  unfold writeChosen
  rcases writeData (fs.clusterToLba cc) data size fs ((size + 511) / 512) 0 with ⟨code, lbas, fs1⟩
  dsimp only
  by_cases hcode : code ≠ 0
  · rw [if_pos hcode]
    exact ⟨rfl, rfl, fun _ => ⟨rfl, rfl⟩, fun h0 => absurd h0 hcode⟩
  · rw [if_neg hcode]
    rcases fs1.secWr (fs1.clusterToLba bmCluster) fs1.spc (setBit bm cc) with ⟨_ | _, fs2⟩
    · exact ⟨rfl, rfl, fun h0 => absurd h0 hcode, fun _ => rfl⟩
    · exact ⟨rfl, rfl, fun h0 => absurd h0 hcode, fun _ => rfl⟩

section Chosen

variable {fs : Exfat} {marked : Nat → Bool} {used : Nat → Prop} (hv : AllocVolume fs marked used)
  {cc : Nat} (hcc : fs.FirstClear cc)
include hv hcc

/-- The bit of the chosen number is not the bit of the chosen cluster. -/
theorem AllocVolume.bitmap_wrong (hbm : fs.bitmapCluster ≠ 0) :
    ¬ (marked (cc - 2) = false ∧ cc - 2 < 8 * fs.bpc ∧ ∀ k < 8 * fs.bpc,
      bit (setBit (blit fs.stack 0 (fs.clusterBytes fs.bitmapCluster) (fs.spc * 512)) cc) k =
        (bit (fs.clusterBytes fs.bitmapCluster) k || decide (k = cc - 2))) := by
  rintro ⟨hfree, hlt, hbits⟩
  obtain ⟨h2, hcount, hclear, -⟩ := hcc
  have hbpc := hv.bpc
  have hread : ∀ k < 8 * fs.bpc,
      bit (blit fs.stack 0 (fs.clusterBytes fs.bitmapCluster) (fs.spc * 512)) k =
        bit (fs.clusterBytes fs.bitmapCluster) k := fun k hk => bit_congr <| by
    rw [blit_in (by omega) (by omega), Nat.sub_zero]
  by_cases hin : cc < 8 * fs.bpc
  · have h := hbits cc hin
    have hsame := hread cc hin
    rw [bit_setBit, decide_eq_true rfl, Bool.or_true, decide_eq_false (by omega), Bool.or_false,
      ← hsame] at h
    rw [seen, ← h] at hclear
    cases hclear
  · have h := hbits (cc - 2) hlt
    rw [bit_setBit, decide_eq_false (by omega), Bool.or_false, hread _ hlt, decide_eq_true rfl,
      Bool.or_true, hv.bitmap hbm _ (by omega) hlt, hfree] at h
    cases h

/-- The call with its cluster chosen: it is right exactly if it is stopped in time. -/
theorem AllocVolume.chosen_iff (hbm : fs.bitmapCluster ≠ 0) (rd : Buf) (log : List (Nat × Nat))
    (fname : List Byte) (data : Buf) {size : Nat} (hsize : size ≤ fs.bpc) :
    AllocRight fs marked used
      ((fs.after (fs.bump (fs.spc + fs.spc)) fs.tmp log).writeChosen rd
        (blit fs.stack 0 (fs.clusterBytes fs.bitmapCluster) (fs.spc * 512)) fs.bitmapCluster cc
        fname data size) ↔
      ¬ fs.DataCopied size ∧
        (fs.served (fs.issued + (fs.spc + fs.spc)) → marked (cc - 2) = false) := by
  generalize hfs2 : fs.after (fs.bump (fs.spc + fs.spc)) fs.tmp log = fs2
  have hlba : fs2.clusterToLba cc = fs.clusterToLba cc := by rw [← hfs2, after_clusterToLba]
  have hissued : fs2.issued = fs.issued + (fs.spc + fs.spc) := by
    rw [← hfs2, after_issued, bump_dev]
  have hserved : ∀ n, fs2.served n ↔ fs.served n := fun n => by rw [← hfs2, after_served]
  obtain ⟨hcluster, hlbas, hstop, hmark⟩ := writeChosen_cases fs2 rd
    (blit fs.stack 0 (fs.clusterBytes fs.bitmapCluster) (fs.spc * 512)) fs.bitmapCluster cc fname
    data size
  obtain ⟨hzero, hcode, hne, hplace⟩ := @writeData_cases (fs2.clusterToLba cc) data size
    fs2 ((size + 511) / 512) 0
  have hcopied : (writeData (fs2.clusterToLba cc) data size fs2 ((size + 511) / 512) 0).1 = 0 ↔
      fs.DataCopied size := by
    rw [hzero, hissued]
    exact forall₂_congr fun j _ => hserved _
  obtain ⟨h2, hcount, -⟩ := id hcc
  have hbpc := hv.bpc
  constructor
  · intro h
    have hstopped : ¬ fs.DataCopied size := fun hall => by
      have hwrong := h.bitmap _ (hmark (hcopied.mpr hall))
      rw [hcluster] at hwrong
      exact hv.bitmap_wrong hcc hbm hwrong
    refine ⟨hstopped, fun hfirst => ?_⟩
    have hsome : 0 < (size + 511) / 512 := by
      rcases Nat.eq_zero_or_pos ((size + 511) / 512) with h0 | hpos
      · exact absurd (fun j hj => absurd hj (by omega)) hstopped
      · exact hpos
    have hfree := (h.free (by rw [hlbas, hne, hissued, hserved]; exact ⟨hsome, hfirst⟩)).2.2.1
    rwa [hcluster] at hfree
  · rintro ⟨hstopped, hfirst⟩
    obtain ⟨hcode', hout⟩ := hstop fun h0 => hstopped (hcopied.mp h0)
    refine ⟨fun hwritten => ?_, fun lba hmem => ?_, fun bm hbm => ?_, fun h5 => ?_⟩
    · rw [hlbas, hne, hissued, hserved] at hwritten
      have hfree := hfirst hwritten.2
      rw [hcluster]
      refine ⟨h2, by omega, hfree, fun hused => ?_⟩
      rw [hv.usedMarked cc hused] at hfree
      cases hfree
    · rw [hlbas] at hmem
      obtain ⟨i, hi, rfl⟩ := hplace lba hmem
      refine ⟨i, by omega, ?_⟩
      rw [hcluster, hlba, Nat.zero_add, clusterToLba_of_two_le fs h2]
    · rw [hout] at hbm
      cases hbm
    · rw [hcode'] at h5
      exact absurd h5 hcode

end Chosen

/-- The allocation of a call is right exactly if the call stops before its search, finds no
clear bit on a volume that is full, or is stopped by a device error while it copies the data,
before the first write or in a cluster that happens to be free. -/
theorem allocRight_iff {fs : Exfat} {marked : Nat → Bool} {used : Nat → Prop}
    (hv : AllocVolume fs marked used) (fname : List Byte) (data : Buf) (size : Nat) :
    AllocRight fs marked used (fs.exfatWriteFile fname data size) ↔
      (fs.Searches fname size →
        ((∀ c, 2 ≤ c → c < fs.boot.clusterCount → fs.seen c = true) →
          ∀ k < fs.boot.clusterCount, marked k = true) ∧
        ∀ cc, fs.FirstClear cc → ¬ fs.DataCopied size ∧
          (fs.served (fs.issued + (fs.spc + fs.spc)) → marked (cc - 2) = false)) := by
  by_cases hs : fs.Searches fname size
  · rcases hv.sectors.searched data hs with ⟨hall, n, log, hrun⟩ | ⟨cc, log, hcc, hrun⟩
    · rw [hrun]
      have hno : ∀ cc, ¬ fs.FirstClear cc := fun cc h => by
        have := hall cc h.1 h.2.1
        rw [h.2.2.1] at this
        cases this
      constructor
      · exact fun h _ => ⟨fun _ => h.full rfl, fun cc hcc => absurd hcc (hno cc)⟩
      · intro h
        exact ⟨fun hne => absurd rfl hne, fun lba hlba => absurd hlba List.not_mem_nil,
          fun bm hbm => absurd hbm (Option.some_ne_none bm).symm, fun _ => (h hs).1 hall⟩
    · rw [hrun]
      have hsome : ¬ ∀ c, 2 ≤ c → c < fs.boot.clusterCount → fs.seen c = true := fun hall => by
        have := hall cc hcc.1 hcc.2.1
        rw [hcc.2.2.1] at this
        cases this
      rw [hv.chosen_iff hcc hs.2.2.2.1 _ log fname data hs.2.1]
      constructor
      · exact fun h _ => ⟨fun hall => absurd hall hsome, fun c hc => by rwa [hc.unique hcc]⟩
      · exact fun h => (h hs).2 cc hcc
  · obtain ⟨code, n, log, hrun, hcode, -⟩ := hv.sectors.early data hs
    rw [hrun]
    exact iff_of_true ⟨fun hne => absurd rfl hne, fun lba hlba => absurd hlba List.not_mem_nil,
      fun bm hbm => absurd hbm (Option.some_ne_none bm).symm, fun h5 => absurd h5 hcode⟩
      fun h => absurd h hs

/-- A volume of eight clusters of one sector, mounted from an ATA disk at sector 64: the bitmap
is in cluster 2, the up-case table in 3, the root directory in 4 and a file in 5. -/
def rootAtFour : Exfat :=
  mounted 0 4 fun i =>
    match i with
    | 37888 => 0x0F
    | 38912 => 0x81
    | 38932 => 2
    | 38944 => 0x82
    | 38964 => 3
    | 38976 => 0x85
    | 39008 => 0xC0
    | 39028 => 5
    | 39032 => 1
    | 39040 => 0xC1
    | 39042 => 0x42
    | _ => 0

theorem rootAtFour_allocVolume :
    AllocVolume rootAtFour (fun k => decide (k < 4)) fun c => 2 ≤ c ∧ c ≤ 5 := by
  have hbitmap : rootAtFour.bitmapCluster = 2 := by decide +kernel
  refine ⟨rfl, rfl, by decide, rfl, by decide, fun _ => by rw [hbitmap]; decide,
    fun c hc => ⟨hc.1, Nat.le_trans hc.2 (by decide)⟩, fun c hc => decide_eq_true (by omega),
    fun _ => ?_⟩
  rw [hbitmap]
  change ∀ k < 8, k < 4096 → _
  exact fun k hk _ => (by decide +kernel : ∀ k < 8,
    bit (rootAtFour.clusterBytes 2) k = decide (k < 4)) k hk

theorem allocRight_iff_rootAtFour :
    AllocRight rootAtFour (fun k => decide (k < 4)) (fun c => 2 ≤ c ∧ c ≤ 5)
        (rootAtFour.exfatWriteFile [0x41] (fun _ => 0x41) 1) ↔
      (rootAtFour.Searches [0x41] 1 →
        ((∀ c, 2 ≤ c → c < 8 → rootAtFour.seen c = true) →
          ∀ k < 8, decide (k < 4) = true) ∧
        ∀ cc, rootAtFour.FirstClear cc → ¬ rootAtFour.DataCopied 1 ∧
          (rootAtFour.served 2 → decide (cc - 2 < 4) = false)) :=
  allocRight_iff rootAtFour_allocVolume [0x41] (fun _ => 0x41) 1

/-- Clusters 2 to 5 are marked used, and the data of the new file goes to the root directory. -/
theorem overwrites_root :
    AllocVolume rootAtFour (fun k => decide (k < 4)) (fun c => 2 ≤ c ∧ c ≤ 5) ∧
    (rootAtFour.exfatWriteFile [0x41] (fun _ => 0x41) 1).freeCluster = rootAtFour.boot.rootDirCluster ∧
    ¬ AllocRight rootAtFour (fun k => decide (k < 4)) (fun c => 2 ≤ c ∧ c ≤ 5)
      (rootAtFour.exfatWriteFile [0x41] (fun _ => 0x41) 1) := by
  have hroot : (rootAtFour.exfatWriteFile [0x41] (fun _ => 0x41) 1).freeCluster = 4 := by decide +kernel
  refine ⟨rootAtFour_allocVolume, hroot, fun h => ?_⟩
  have hused := (h.free (by decide +kernel)).2.2.2
  rw [hroot] at hused
  exact hused (by decide)

end Exfat

end WinDOS
