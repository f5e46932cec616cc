import WinDOS.Fs.Atomic
import WinDOS.Fs.Directory

/-!
# Writing a file and reading it back

On a volume whose devices never fail and whose bitmap marks every cluster in use under its own
number, a call of `exfat_write_file` that succeeds adds one file, and the others stay as they are.
-/

set_option autoImplicit false

namespace WinDOS

open Bytes

namespace Exfat

/-! ### Reading without faults -/

/-- A mounted volume with a FAT whose commands are all served. -/
structure ReadVolume (fs : Exfat) : Prop extends SectorVolume fs where
  fat : 0 < fs.boot.fatLength
  served : ∀ n, fs.served n

/-- Reading `remaining` bytes from `cluster` on gets to cluster `d`. -/
inductive Visits (next : Nat → Nat) (bpc : Nat) : Nat → Nat → Nat → Prop where
  | here {cluster remaining : Nat} : remaining ≠ 0 → 2 ≤ cluster → cluster ≠ CHAIN_END →
      Visits next bpc cluster remaining cluster
  | later {cluster remaining d : Nat} : remaining ≠ 0 → 2 ≤ cluster → cluster ≠ CHAIN_END →
      Visits next bpc (next cluster) (remaining - min remaining bpc) d →
      Visits next bpc cluster remaining d

/-- What a caller of `exfat_read_file` sees: the result and its buffer. -/
def readResult (r : Option (Int × Buf × Exfat)) : Option (Int × Buf) := r.map fun r => (r.1, r.2.1)

section Read

variable {fs : Exfat}

theorem after_readVolume (hv : ReadVolume fs) (n : Dev → Nat) (tmp : Buf) (log : List (Nat × Nat)) :
    ReadVolume (fs.after n tmp log) :=
  ⟨⟨hv.ok, hv.bps, hv.spc, hv.bpc⟩, hv.fat, hv.served⟩

theorem withMedia_readVolume (hv : ReadVolume fs) {m : Media Dev}
    (hm : m.faults = fs.disks.media.faults) (log : List (Nat × Nat)) :
    ReadVolume (fs.withMedia m log) :=
  ⟨⟨hv.ok, hv.bps, hv.spc, hv.bpc⟩, hv.fat, fun n => (withMedia_served hm n).mpr (hv.served n)⟩

theorem ReadVolume.readCluster_next (hv : ReadVolume fs) (cluster : Nat) (buf : Buf) :
    ∃ gs, fs.readCluster cluster buf =
        (true, blit buf 0 (fs.clusterBytes cluster) (fs.spc * 512), gs) ∧
      gs.bpc = fs.bpc ∧ ∀ tmp, ∃ n log n' log', ({ gs with tmp := tmp } : Exfat) = fs.after n tmp log ∧
        (fs.after n tmp log).nextCluster cluster = (fs.fatEntry cluster, fs.after n' tmp log') := by
  obtain ⟨log, hread⟩ := readCluster_served hv.bps (fun j _ => hv.served _) cluster buf
  refine ⟨_, hread, rfl, fun tmp => ?_⟩
  obtain ⟨log', hnext⟩ := @nextCluster_served (fs.after (fs.bump fs.spc) tmp log) hv.bps hv.fat
    (hv.served _) cluster
  exact ⟨_, log, _, log', rfl, hnext⟩

theorem SectorVolume.dvd (hv : SectorVolume fs) : 32 ∣ fs.bpc := by
  have := hv.bpc
  omega

theorem SectorVolume.rootBuf_eq (hv : SectorVolume fs) {i : Nat} (hi : i < fs.bpc) :
    fs.rootBuf i = fs.clusterBytes fs.boot.rootDirCluster i := by
  have := hv.bpc
  unfold rootBuf
  rw [blit_in (by omega) (by omega), Nat.sub_zero]

theorem ReadVolume.list_eq (hv : ReadVolume fs) {cluster : Nat} (h2 : 2 ≤ cluster)
    (hne : cluster ≠ CHAIN_END) (hend : fs.fatEntry cluster = CHAIN_END) (max : Nat) :
    ∃ n tmp log, fs.exfatListDir cluster max =
      (parseDirCluster (fs.clusterBytes cluster) fs.bpc max, fs.after n tmp log) := by
  obtain ⟨gs, hread, hbpc, hnext⟩ := hv.readCluster_next cluster fs.tmp
  obtain ⟨n, log, n', log', hset, hnext⟩ :=
    hnext (blit fs.tmp 0 (fs.clusterBytes cluster) (fs.spc * 512))
  have hparse : parseDirCluster (blit fs.tmp 0 (fs.clusterBytes cluster) (fs.spc * 512)) fs.bpc max =
      parseDirCluster (fs.clusterBytes cluster) fs.bpc max :=
    parseDirCluster_congr (fun i hi => by
      have := hv.bpc
      rw [blit_in (by omega) (by omega), Nat.sub_zero]) hv.dvd max
  unfold exfatListDir
  rw [if_pos hv.ok, listLoop, if_pos ⟨h2, hne⟩, hread]
  simp only [hset]
  rw [hbpc, List.length_nil, Nat.sub_zero, hparse]
  by_cases hnone : (parseDirCluster (fs.clusterBytes cluster) fs.bpc max).length = 0
  · rw [if_pos hnone, List.length_eq_zero_iff.mp hnone]
    exact ⟨n, _, log, rfl⟩
  · rw [if_neg hnone, hnext, hend, List.nil_append]
    refine ⟨n', blit fs.tmp 0 (fs.clusterBytes cluster) (fs.spc * 512), log', ?_⟩
    cases max with
    | zero => rfl
    | succ max =>
      dsimp only
      rw [listLoop, if_neg fun h => h.2 rfl]

theorem ReadVolume.readLoop_round (hv : ReadVolume fs) {cluster remaining : Nat}
    (hr : remaining ≠ 0) (h2 : 2 ≤ cluster) (hne : cluster ≠ CHAIN_END) (fuel pos : Nat) (buf : Buf) :
    ∃ n tmp log, readLoop (fuel + 1) fs cluster remaining pos buf =
      readLoop fuel (fs.after n tmp log) (fs.fatEntry cluster) (remaining - min remaining fs.bpc)
        (pos + min remaining fs.bpc)
        (blit buf pos (fs.clusterBytes cluster) (min remaining fs.bpc)) := by
  obtain ⟨gs, hread, hbpc, hnext⟩ := hv.readCluster_next cluster fs.tmp
  obtain ⟨n, log, n', log', hset, hnext⟩ :=
    hnext (blit fs.tmp 0 (fs.clusterBytes cluster) (fs.spc * 512))
  refine ⟨n', blit fs.tmp 0 (fs.clusterBytes cluster) (fs.spc * 512), log', ?_⟩
  have hchunk : (if remaining < fs.bpc then remaining else fs.bpc) = min remaining fs.bpc := by
    split <;> omega
  have hbytes : blit buf pos (blit fs.tmp 0 (fs.clusterBytes cluster) (fs.spc * 512))
      (min remaining fs.bpc) = blit buf pos (fs.clusterBytes cluster) (min remaining fs.bpc) :=
    blit_congr fun j hj => by
      have := hv.bpc
      rw [blit_in (by omega) (by omega), Nat.sub_zero]
  rw [readLoop, if_neg hr]
  dsimp only
  rw [if_neg (by omega), hread]
  simp only [hset]
  rw [hbpc, hchunk, hbytes, hnext]

end Read

theorem readLoop_done (fuel : Nat) (fs : Exfat) (cluster pos : Nat) (buf : Buf) :
    readLoop fuel fs cluster 0 pos buf = some (0, buf, fs) := by
  cases fuel <;> exact if_pos rfl

theorem ReadVolume.read_single {fs : Exfat} (hv : ReadVolume fs) {cluster size : Nat}
    (h2 : 2 ≤ cluster) (hne : cluster ≠ CHAIN_END) (hsize : size ≤ fs.bpc) (buf : Buf) :
    readResult (fs.exfatReadFile cluster size buf) =
      some (0, blit buf 0 (fs.clusterBytes cluster) size) := by
  unfold exfatReadFile
  rw [if_pos hv.ok]
  cases size with
  | zero => rw [readLoop_done, blit_zero]; rfl
  | succ n =>
    obtain ⟨n', tmp, log, hround⟩ := hv.readLoop_round n.succ_ne_zero h2 hne n 0 buf
    rw [hround, Nat.min_eq_left hsize, Nat.sub_self, readLoop_done]
    rfl

/-- Two volumes that agree on the clusters a file takes read it alike. -/
theorem readLoop_congr {fs gs : Exfat} (hf : ReadVolume fs) (hg : ReadVolume gs)
    (hbpc : gs.bpc = fs.bpc) {cluster remaining : Nat}
    (hsame : ∀ d, Visits fs.fatEntry fs.bpc cluster remaining d →
      (∀ i < fs.bpc, gs.clusterBytes d i = fs.clusterBytes d i) ∧ gs.fatEntry d = fs.fatEntry d)
    (fuel pos : Nat) (buf : Buf) :
    readResult (readLoop fuel gs cluster remaining pos buf) =
      readResult (readLoop fuel fs cluster remaining pos buf) := by
  induction fuel generalizing fs gs cluster remaining pos buf with
  | zero =>
    rw [readLoop, readLoop]
    split <;> rfl
  | succ fuel ih =>
    by_cases hr : remaining = 0
    · rw [readLoop, readLoop, if_pos hr, if_pos hr]
      rfl
    by_cases hbad : cluster < 2 ∨ cluster = CHAIN_END
    · rw [readLoop, readLoop, if_neg hr, if_neg hr]
      dsimp only
      rw [if_pos hbad, if_pos hbad]
      rfl
    have h2 : 2 ≤ cluster := by omega
    have hne : cluster ≠ CHAIN_END := fun h => hbad (.inr h)
    obtain ⟨n, tmp, log, hfs⟩ := hf.readLoop_round hr h2 hne fuel pos buf
    obtain ⟨n', tmp', log', hgs⟩ := hg.readLoop_round hr h2 hne fuel pos buf
    obtain ⟨hbytes, hnext⟩ := hsame cluster (.here hr h2 hne)
    have hblit : blit buf pos (gs.clusterBytes cluster) (min remaining fs.bpc) =
        blit buf pos (fs.clusterBytes cluster) (min remaining fs.bpc) :=
      blit_congr fun j hj => hbytes j (by omega)
    rw [hfs, hgs, hbpc, hnext, hblit]
    exact ih (after_readVolume hf n tmp log) (after_readVolume hg n' tmp' log') hbpc
      (fun d hd => hsame d (.later hr h2 hne hd)) _ _

/-! ### The volume -/

/-- The clusters of the cluster heap. -/
def InHeap (fs : Exfat) (c : Nat) : Prop := 2 ≤ c ∧ c ≤ fs.boot.clusterCount + 1

theorem FirstClear.inHeap {fs : Exfat} {cc : Nat} (hcc : fs.FirstClear cc) : fs.InHeap cc :=
  ⟨hcc.1, Nat.le_succ_of_le (Nat.le_of_lt hcc.2.1)⟩

/-- The files in the root directory. -/
def rootFiles (fs : Exfat) : List ExfatFileInfo :=
  parseDirCluster (fs.clusterBytes fs.boot.rootDirCluster) fs.bpc 64

/-- A cluster is marked under its own number, as the driver counts. -/
def Marked (fs : Exfat) (c : Nat) : Prop := bit (fs.clusterBytes fs.bitmapCluster) c = true

/-- A volume on which the driver is at home: the root directory and the bitmap have one cluster
each, every command is served (`ReadVolume`), and the clusters in use are marked as the driver
numbers them, bit `c` for cluster `c`, as far as it looks. -/
structure RootVolume (fs : Exfat) : Prop extends ReadVolume fs where
  few : fs.spc ≤ 8
  bitmapFits : fs.boot.clusterCount / 8 < fs.bpc
  /-- The sectors of the heap have numbers of 32 bits. -/
  fits : fs.partLba + fs.boot.clusterHeapOffset + fs.boot.clusterCount * fs.spc ≤ 2 ^ 32
  fatApart : ∀ c, fs.InHeap c → ∀ d, fs.InHeap d → ∀ j < fs.spc,
    fs.addr (fs.fatLba c) ≠ fs.cellAddr d j
  rootEnd : fs.fatEntry fs.boot.rootDirCluster = CHAIN_END
  rootZero : ∀ i, dirEnd (fs.clusterBytes fs.boot.rootDirCluster) fs.bpc fs.bpc 0 ≤ i → i < fs.bpc →
    fs.clusterBytes fs.boot.rootDirCluster i = 0
  rootIn : fs.InHeap fs.boot.rootDirCluster
  rootMarked : fs.boot.rootDirCluster < fs.boot.clusterCount → fs.Marked fs.boot.rootDirCluster
  bitmapIn : fs.InHeap fs.bitmapCluster
  bitmapMarked : fs.bitmapCluster < fs.boot.clusterCount → fs.Marked fs.bitmapCluster
  apart : fs.boot.rootDirCluster ≠ fs.bitmapCluster
  files : ∀ f ∈ fs.rootFiles, ∀ c, Visits fs.fatEntry fs.bpc f.firstCluster f.dataLen c →
    fs.InHeap c ∧ c ≠ fs.boot.rootDirCluster ∧ c ≠ fs.bitmapCluster ∧
      (c < fs.boot.clusterCount → fs.Marked c)

/-- Such a volume with fewer than 64 files and every cluster in use marked. -/
structure FileVolume (fs : Exfat) : Prop extends RootVolume fs where
  rootFew : fs.rootFiles.length < 64
  rootBit : fs.Marked fs.boot.rootDirCluster
  bitmapBit : fs.Marked fs.bitmapCluster
  fileBits : ∀ f ∈ fs.rootFiles, ∀ c, Visits fs.fatEntry fs.bpc f.firstCluster f.dataLen c →
    fs.Marked c

/-- What a call that enters the file `fi` leaves: it reads back as written, the files listed
before are listed and read as before, and bit `k` of the bitmap is new. -/
structure Entered (fs fs' : Exfat) (fname : List Byte) (data : Buf) (size : Nat)
    (fi : ExfatFileInfo) (k : Nat) : Prop where
  found : (fs'.exfatFind fs.boot.rootDirCluster fname).1 = some fi
  dataLen : fi.dataLen = size
  data : ∀ buf, readResult ((fs'.exfatFind fs.boot.rootDirCluster fname).2.exfatReadFile
    fi.firstCluster fi.dataLen buf) = some (0, blit buf 0 data size)
  listed : (fs'.exfatListDir fs.boot.rootDirCluster 64).1 =
    (fs.exfatListDir fs.boot.rootDirCluster 64).1 ++ [fi]
  others : ∀ f ∈ (fs.exfatListDir fs.boot.rootDirCluster 64).1, ∀ buf,
    readResult (fs'.exfatReadFile f.firstCluster f.dataLen buf) =
      readResult (fs.exfatReadFile f.firstCluster f.dataLen buf)
  inBitmap : k < 8 * fs.bpc
  wasClear : bit (fs.clusterBytes fs.bitmapCluster) k = false
  bits : ∀ j < 8 * fs.bpc, bit (fs'.clusterBytes fs.bitmapCluster) j =
    (bit (fs.clusterBytes fs.bitmapCluster) j || decide (j = k))

section Volume

variable {fs : Exfat} (hv : RootVolume fs)
include hv

theorem RootVolume.small : fs.boot.clusterCount * fs.spc ≤ 2 ^ 20 ∧ fs.boot.clusterCount < 2 ^ 16 := by
  have hbpc := hv.bpc
  have hfew := hv.few
  have hfits := hv.bitmapFits
  have hcount : fs.boot.clusterCount < 2 ^ 16 := by omega
  have := Nat.mul_le_mul (Nat.le_of_lt hcount) hfew
  exact ⟨by omega, hcount⟩

theorem RootVolume.lba_eq {c j : Nat} (hc : fs.InHeap c) (hj : j < fs.spc) :
    fs.clusterToLba c + j = fs.partLba + fs.boot.clusterHeapOffset + ((c - 2) * fs.spc + j) ∧
      (c - 2) * fs.spc + j < fs.boot.clusterCount * fs.spc := by
  have hin : (c - 2 + 1) * fs.spc ≤ fs.boot.clusterCount * fs.spc :=
    Nat.mul_le_mul_right fs.spc (by have := hc.1; have := hc.2; omega)
  rw [Nat.add_mul, Nat.one_mul] at hin
  have hfits := hv.fits
  have hlba := fs.clusterToLba_of_two_le hc.1 0
  rw [Nat.add_zero, Nat.add_zero, wrap32, wrap32, Nat.mod_eq_of_lt (b := 2 ^ 32)
    (show fs.clusterToLba c < 2 ^ 32 from Nat.mod_lt _ (by decide)),
    Nat.mod_eq_of_lt (by omega)] at hlba
  exact ⟨by omega, by omega⟩

theorem RootVolume.putAddr_eq {c j : Nat} (hc : fs.InHeap c) (hj : j < fs.spc) :
    fs.putAddr c j = fs.cellAddr c j := by
  obtain ⟨hlba, hlt⟩ := hv.lba_eq hc hj
  have hfits := hv.fits
  unfold putAddr cellAddr wrap32
  rw [Nat.mod_eq_of_lt (by omega)]

theorem RootVolume.cellAddr_inj {c d i j : Nat} (hc : fs.InHeap c) (hd : fs.InHeap d)
    (hi : i < fs.spc) (hj : j < fs.spc) (h : fs.cellAddr c i = fs.cellAddr d j) : c = d ∧ i = j := by
  rw [← hv.putAddr_eq hc hi, ← hv.putAddr_eq hd hj] at h
  obtain ⟨hlba, hlt⟩ := hv.lba_eq hc hi
  obtain ⟨hlba', hlt'⟩ := hv.lba_eq hd hj
  have hsmall := hv.small.1
  have hsame : (c - 2) * fs.spc + i = (d - 2) * fs.spc + j := by
    unfold putAddr addr lba28 at h
    split at h <;> omega
  have hdiv : c - 2 = d - 2 := by
    have := congrArg (· / fs.spc) hsame
    simp only [Nat.add_comm _ i, Nat.add_comm _ j] at this
    rwa [Nat.add_mul_div_right _ _ hv.spc, Nat.add_mul_div_right _ _ hv.spc,
      Nat.div_eq_of_lt hi, Nat.div_eq_of_lt hj, Nat.zero_add, Nat.zero_add] at this
  rw [hdiv] at hsame
  have := hc.1
  have := hd.1
  exact ⟨by omega, by omega⟩

theorem RootVolume.writeVolume : WriteVolume fs where
  toSectorVolume := hv.toSectorVolume
  small := by
    have hbpc := hv.bpc
    have hfew := hv.few
    have : TMP_SIZE = 8192 := rfl
    omega

theorem RootVolume.seen_eq {c : Nat} (hc : c < fs.boot.clusterCount) :
    fs.seen c = bit (fs.clusterBytes fs.bitmapCluster) c := by
  have hbpc := hv.bpc
  have hfits := hv.bitmapFits
  refine bit_congr ?_
  rw [blit_in (by omega) (by omega), Nat.sub_zero]

/-- A call on a name of the right length and data of one cluster gets to its search. -/
theorem RootVolume.searches {fname : List Byte} {size : Nat} (hname : nameLen fname ≠ 0)
    (hsize : size ≤ fs.bpc) : fs.Searches fname size := by
  have := hv.bitmapIn.1
  exact ⟨hname, hsize, fun j _ => hv.served _, by omega, fun j _ => hv.served _⟩

theorem RootVolume.done (n : Nat) : fs.Done n fs.spc := by
  unfold Done
  split
  · exact ⟨hv.few, hv.served n⟩
  · exact fun i _ => hv.served _

theorem RootVolume.cluster_inside {c n : Nat} (hc : fs.InHeap c) {old new : Nat → Buf} {buf : Buf}
    (h : Media.Stores old new fs.spc (fs.Stored n fs.spc) (fs.putAddr c) fun j i => buf (j * 512 + i))
    {i : Nat} (hi : i < fs.bpc) : new (fs.cellAddr c (i / 512)) (i % 512) = buf i := by
  have hbpc := hv.bpc
  have hj : i / 512 < fs.spc := by omega
  have hbyte := h.inside (i / 512) hj ((hv.done n).stored hj) (i % 512) (by omega)
  rwa [hv.putAddr_eq hc hj, show i / 512 * 512 + i % 512 = i by omega] at hbyte

theorem RootVolume.cluster_outside {c n a : Nat} (hc : fs.InHeap c) {old new : Nat → Buf}
    {content : Nat → Buf}
    (h : Media.Stores old new fs.spc (fs.Stored n fs.spc) (fs.putAddr c) content)
    (ha : ∀ j < fs.spc, a ≠ fs.cellAddr c j) {i : Nat} (hi : i < 512) : new a i = old a i :=
  h.outside a (fun j hj _ => by rw [hv.putAddr_eq hc hj]; exact ha j hj) i hi

theorem RootVolume.unmarked {cc : Nat} (hcc : fs.FirstClear cc) : ¬ fs.Marked cc := by
  unfold Marked
  rw [← hv.seen_eq hcc.2.1, hcc.2.2.1]
  decide

theorem RootVolume.ne_root {cc : Nat} (hcc : fs.FirstClear cc) : cc ≠ fs.boot.rootDirCluster :=
  fun h => hv.unmarked hcc (h ▸ hv.rootMarked (h ▸ hcc.2.1))

theorem RootVolume.ne_bitmap {cc : Nat} (hcc : fs.FirstClear cc) : cc ≠ fs.bitmapCluster :=
  fun h => hv.unmarked hcc (h ▸ hv.bitmapMarked (h ▸ hcc.2.1))

theorem RootVolume.cells_apart {c d : Nat} (hc : fs.InHeap c) (hd : fs.InHeap d) (hcd : c ≠ d) :
    ∀ i < fs.spc, ∀ j < fs.spc, fs.cellAddr c i ≠ fs.cellAddr d j :=
  fun _ hi _ hj h => hcd (hv.cellAddr_inj hc hd hi hj h).1

theorem RootVolume.written {fname : List Byte} {data : Buf} {size : Nat}
    (hname : nameLen fname ≠ 0) (hsize : size ≤ fs.bpc)
    (hcode : (fs.exfatWriteFile fname data size).code = 0) :
    ∃ cc m log, fs.FirstClear cc ∧ fs.Room ∧ m.faults = fs.disks.media.faults ∧
      (fs.exfatWriteFile fname data size).fs = fs.withMedia m log ∧
      (∀ i < fs.bpc, (fs.withMedia m log).clusterBytes fs.boot.rootDirCluster i =
        putEntrySet fs.rootBuf (dirEnd fs.rootBuf fs.bpc fs.bpc 0) fname size cc i) ∧
      (∀ i < fs.bpc, (fs.withMedia m log).clusterBytes fs.bitmapCluster i =
        setBit fs.bitmapBuf cc i) ∧
      (∀ i < size, (fs.withMedia m log).clusterBytes cc i = data i) ∧
      (∀ c, fs.InHeap c → c ≠ fs.boot.rootDirCluster → c ≠ fs.bitmapCluster → c ≠ cc →
        ∀ i < fs.bpc, (fs.withMedia m log).clusterBytes c i = fs.clusterBytes c i) ∧
      ∀ c, fs.InHeap c → (fs.withMedia m log).fatEntry c = fs.fatEntry c := by
  have hbpc := hv.bpc
  rcases hv.toSectorVolume.searched data (hv.searches hname hsize) with
    ⟨-, n, log, hrun⟩ | ⟨cc, log, hcc, hrun⟩
  · rw [hrun] at hcode
    exact absurd hcode (show ¬ (-5 : Int) = 0 by decide)
  obtain ⟨m3, log3, h3, hstop⟩ := hv.writeVolume.chosen_outcome log cc fname data hsize hrun
  have hcopied : fs.DataCopied size := fun j _ => hv.served _
  rcases hstop with ⟨h, -⟩ | ⟨-, m4, log4, h4, -, hstop⟩
  · exact absurd hcopied h
  rcases hstop with ⟨-, h, -⟩ | ⟨-, hroom, m5, log5, h5, -, hm5, hfs⟩
  · exact absurd hcode h
  have hccIn := hcc.inHeap
  have hccRoot := hv.ne_root hcc
  have hccMap := hv.ne_bitmap hcc
  -- what none of the three writes is for keeps its contents
  have hkept : ∀ a, (∀ j < fs.spc, a ≠ fs.cellAddr fs.boot.rootDirCluster j) →
      (∀ j < fs.spc, a ≠ fs.cellAddr fs.bitmapCluster j) → ∀ i < 512,
      (fs.withMedia m5 log5).cell a i = (fs.withMedia m3 log3).cell a i := fun a hr hm i hi =>
    (hv.cluster_outside hv.rootIn h5 hr hi).trans (hv.cluster_outside hv.bitmapIn h4 hm hi)
  have hdata : ∀ a, (∀ j < fs.spc, a ≠ fs.cellAddr cc j) → ∀ i < 512,
      (fs.withMedia m3 log3).cell a i = fs.cell a i := fun a ha i hi =>
    h3.outside a (fun j hj _ => ha j (by omega)) i hi
  refine ⟨cc, m5, log5, hcc, hroom, hm5, hfs, fun i hi => ?_, fun i hi => ?_, fun i hi => ?_,
    fun c hc hcr hcm hccc i hi => ?_, fun c hc => ?_⟩
  · exact hv.cluster_inside hv.rootIn h5 hi
  · have hj : i / 512 < fs.spc := by omega
    exact (hv.cluster_outside hv.rootIn h5 (hv.cells_apart hv.bitmapIn hv.rootIn hv.apart.symm _ hj)
      (by omega)).trans (hv.cluster_inside hv.bitmapIn h4 hi)
  · have hj : i / 512 < fs.spc := by omega
    have hst : fs.DataStored fs.dataStart (i / 512) :=
      ⟨fun _ _ => hv.served _, Media.keeps_of_ok (hv.served _).2 0⟩
    have hbyte := h3.inside (i / 512) (by omega) hst (i % 512) (by omega)
    rw [dataSector, if_pos (by omega), show i / 512 * 512 + i % 512 = i by omega] at hbyte
    exact (hkept _ (hv.cells_apart hccIn hv.rootIn hccRoot _ hj)
      (hv.cells_apart hccIn hv.bitmapIn hccMap _ hj) _ (by omega)).trans hbyte
  · have hj : i / 512 < fs.spc := by omega
    exact (hkept _ (hv.cells_apart hc hv.rootIn hcr _ hj)
      (hv.cells_apart hc hv.bitmapIn hcm _ hj) _ (by omega)).trans
      (hdata _ (hv.cells_apart hc hccIn hccc _ hj) _ (by omega))
  · refine le_congr fun i h0 h1 => ?_
    exact (hkept _ (hv.fatApart c hc _ hv.rootIn) (hv.fatApart c hc _ hv.bitmapIn) _
      (by omega)).trans (hdata _ (hv.fatApart c hc _ hccIn) _ (by omega))

theorem RootVolume.ne_chainEnd {c : Nat} (hc : fs.InHeap c) : c ≠ CHAIN_END := by
  have hsmall := hv.small.2
  have := hc.2
  unfold CHAIN_END
  omega

/-- The files of the root directory with a new entry set at its end. -/
theorem RootVolume.parse_put (hfew : fs.rootFiles.length < 64) (hroom : fs.Room)
    {fname : List Byte} {size cc : Nat} (hname : ∀ c ∈ fname, c ≠ 0) (hlen : fname.length ≤ 255)
    (hcc : cc < 2 ^ 32) (hsize : size < 2 ^ 64) :
    parseDirCluster (putEntrySet fs.rootBuf (dirEnd fs.rootBuf fs.bpc fs.bpc 0) fname size cc)
      fs.bpc 64 = fs.rootFiles ++ [enteredFile (fname.take 15) size cc] := by
  have hbuf := fun i hi => @SectorVolume.rootBuf_eq fs hv.toSectorVolume i hi
  have hend := dirEnd_congr hbuf fs.bpc 0
  have hparse : parseDirCluster fs.rootBuf fs.bpc 64 = fs.rootFiles :=
    parseDirCluster_congr hbuf hv.dvd 64
  rw [← hparse]
  refine parseDirCluster_put hv.dvd hroom (fun _ i h0 h1 => ?_) hname hlen hcc hsize ?_
  · rw [hbuf i h1]
    exact hv.rootZero i (hend ▸ h0) h1
  · rw [hparse]
    exact hfew

end Volume

theorem exfatFind_eq {fs gs : Exfat} (hok : fs.ok = true) {cluster : Nat}
    {infos : List ExfatFileInfo} (hlist : fs.exfatListDir cluster 64 = (infos, gs))
    (fname : List Byte) :
    fs.exfatFind cluster fname = (infos.find? fun fi => xstrcmp fi.name fname = 0, gs) := by
  unfold exfatFind
  rw [if_pos hok, hlist]

/-- The new file is found if no file before it has its name. -/
theorem find_entered {infos : List ExfatFileInfo} {fname : List Byte}
    (hnone : (infos.find? fun fi => xstrcmp fi.name fname = 0) = none) (size cc : Nat) :
    (infos ++ [enteredFile fname size cc]).find? (fun fi => xstrcmp fi.name fname = 0) =
      some (enteredFile fname size cc) := by
  have hfirst : [enteredFile fname size cc].find? (fun fi => xstrcmp fi.name fname = 0) =
      some (enteredFile fname size cc) :=
    List.find?_cons_of_pos (decide_eq_true (xstrcmp_self fname))
  rw [List.find?_append, hnone, hfirst]
  rfl

/-- What a call on a new name leaves if it enters the file. -/
theorem RootVolume.round_trip {fs : Exfat} (hv : RootVolume fs) (hfew : fs.rootFiles.length < 64)
    {fname : List Byte} (hpos : 0 < fname.length) (hlen : fname.length ≤ 15)
    (hname : ∀ c ∈ fname, c ≠ 0)
    (hnew : (fs.exfatFind fs.boot.rootDirCluster fname).1 = none) (data : Buf) {size : Nat}
    (hsize : size ≤ fs.bpc) (hcode : (fs.exfatWriteFile fname data size).code = 0) :
    ∃ fi k, Entered fs (fs.exfatWriteFile fname data size).fs fname data size fi k := by
  have hnlen := nameLen_eq hname (by omega)
  obtain ⟨cc, m, log, hcc, hroom, hm, hfs, hroot, hmap, hdata, hother, hfat⟩ :=
    hv.written (by omega) hsize hcode
  have hccIn := hcc.inHeap
  have hcount := hv.small.2
  have hbpc := hv.bpc
  have hgs := withMedia_readVolume hv.toReadVolume hm log
  -- the list of the root directory before and after the call
  obtain ⟨n0, tmp0, log0, hlist⟩ := hv.list_eq hv.rootIn.1 (hv.ne_chainEnd hv.rootIn) hv.rootEnd 64
  obtain ⟨n1, tmp1, log1, hlist'⟩ := hgs.list_eq hv.rootIn.1 (hv.ne_chainEnd hv.rootIn)
    ((hfat _ hv.rootIn).trans hv.rootEnd) 64
  have hadded := (parseDirCluster_congr hroot hv.dvd 64).trans (hv.parse_put hfew hroom hname (by omega)
    (show cc < 2 ^ 32 by have := hcc.2.1; omega)
    (show size < 2 ^ 64 by have := hv.few; omega))
  rw [List.take_of_length_le hlen] at hadded
  have hlisted : (fs.withMedia m log).exfatListDir fs.boot.rootDirCluster 64 =
      (fs.rootFiles ++ [enteredFile fname size cc], (fs.withMedia m log).after n1 tmp1 log1) :=
    hlist'.trans (Prod.ext hadded rfl)
  have hfind : (fs.withMedia m log).exfatFind fs.boot.rootDirCluster fname =
      (some (enteredFile fname size cc), (fs.withMedia m log).after n1 tmp1 log1) := by
    rw [exfatFind_eq hv.ok hlist] at hnew
    rw [exfatFind_eq hgs.ok hlisted, @find_entered fs.rootFiles fname hnew]
  rw [hfs]
  refine ⟨enteredFile fname size cc, cc, by rw [hfind], rfl, fun buf => ?_, ?_, fun f hf buf => ?_,
    by have := hcc.2.1; have := hv.bitmapFits; omega, Bool.eq_false_iff.mpr (hv.unmarked hcc),
    fun j hj => ?_⟩
  · rw [hfind]
    refine ((after_readVolume hgs n1 tmp1 log1).read_single hcc.1 (hv.ne_chainEnd hccIn) hsize
      buf).trans ?_
    rw [after_clusterBytes, blit_congr hdata]
  · rw [hlisted, hlist]
    rfl
  · rw [hlist] at hf
    unfold exfatReadFile
    rw [if_pos hv.ok, if_pos hgs.ok]
    refine readLoop_congr hv.toReadVolume hgs rfl (fun d hd => ?_) _ _ _
    obtain ⟨hin, hdr, hdm, hmarked⟩ := hv.files f hf d hd
    exact ⟨hother d hin hdr hdm fun h => hv.unmarked hcc (h ▸ hmarked (h ▸ hcc.2.1)), hfat d hin⟩
  · rw [bit_congr (hmap (j / 8) (by omega)), bit_setBit]
    congr 1
    refine bit_congr ?_
    unfold bitmapBuf
    rw [blit_in (by omega) (by omega), Nat.sub_zero]

/-- A file that a call has written is found and reads back as written, every other file is listed
and reads as before, and one bit of the bitmap has changed, from clear to set. -/
theorem write_round_trip {fs : Exfat} (hv : FileVolume fs) {fname : List Byte}
    (hpos : 0 < fname.length) (hlen : fname.length ≤ 15)
    (hascii : ∀ c ∈ fname, 0 < c.toNat ∧ c.toNat < 128)
    (hnew : (fs.exfatFind fs.boot.rootDirCluster fname).1 = none) (data : Buf) {size : Nat}
    (hsize : size ≤ fs.bpc) (hcode : (fs.exfatWriteFile fname data size).code = 0) :
    ∃ fi k, Entered fs (fs.exfatWriteFile fname data size).fs fname data size fi k := by
  have hname : ∀ c ∈ fname, c ≠ 0 := fun c hc h => by
    have := (hascii c hc).1
    rw [h] at this
    exact absurd this (by decide)
  exact hv.toRootVolume.round_trip hv.rootFew hpos hlen hname hnew data hsize hcode

/-- A volume of eight clusters of one sector, mounted from an ATA disk at sector 64: the bitmap
is in cluster 3, the root directory in 5 and a file of three bytes in 6. -/
def oneFile : Exfat :=
  mounted 0 5 fun i =>
    match i with
    | 33300 | 33301 | 33302 | 33303 | 33304 | 33305 | 33306 | 33307 => 0xFF
    | 38400 => 0x7A
    | 39424 => 0x81
    | 39444 => 3
    | 39456 => 0x85
    | 39488 => 0xC0
    | 39508 => 6
    | 39512 => 3
    | 39520 => 0xC1
    | 39522 => 0x42
    | 39936 => 1
    | 39937 => 2
    | 39938 => 3
    | _ => 0

theorem oneFile_clusters {f : ExfatFileInfo} (hf : f ∈ oneFile.rootFiles) {c : Nat}
    (hc : Visits oneFile.fatEntry oneFile.bpc f.firstCluster f.dataLen c) : c = 6 := by
  have hfiles : oneFile.rootFiles = [⟨6, 3, [0x42], false⟩] := by decide +kernel
  rw [hfiles, List.mem_singleton] at hf
  subst hf
  cases hc with
  | here => rfl
  | later _ _ _ hrest =>
    have hnone : ∀ {c r d}, Visits oneFile.fatEntry oneFile.bpc c r d → r ≠ 0 := by
      rintro c r d (h | h) <;> assumption
    exact absurd rfl (hnone hrest)

theorem oneFile_fileVolume : FileVolume oneFile where
  ok := rfl
  bps := rfl
  spc := Nat.one_pos
  bpc := rfl
  fat := by decide
  served := fun _ => ⟨rfl, rfl⟩
  few := by decide
  bitmapFits := by decide
  fits := by decide
  fatApart := fun c hc d hd j hj => by
    have hc2 : c ≤ 9 := hc.2
    have hd2 : d ≤ 9 := hd.2
    have hj0 : j < 1 := hj
    unfold cellAddr
    rw [oneFile.clusterToLba_of_two_le hd.1 j]
    change lba28 (wrap32 (64 + 1 + c * 4 / 512)) ≠ lba28 (wrap32 (64 + 10 + (d - 2) * 1 + j))
    unfold lba28 wrap32
    omega
  rootEnd := by decide +kernel
  rootZero := by
    have hend : dirEnd (oneFile.clusterBytes oneFile.boot.rootDirCluster) oneFile.bpc oneFile.bpc 0 =
        128 := by decide +kernel
    rw [hend]
    exact fun i h0 h1 => (by decide +kernel : ∀ i < 512, 128 ≤ i →
      oneFile.clusterBytes oneFile.boot.rootDirCluster i = 0) i h1 h0
  rootIn := ⟨by decide, by decide⟩
  rootMarked := by
    unfold Marked
    decide +kernel
  bitmapIn := by
    unfold InHeap
    decide +kernel
  bitmapMarked := by
    unfold Marked
    decide +kernel
  apart := by decide +kernel
  files := fun f hf c hc => by
    obtain rfl := oneFile_clusters hf hc
    unfold InHeap Marked
    decide +kernel
  rootFew := by decide +kernel
  rootBit := by
    unfold Marked
    decide +kernel
  bitmapBit := by
    unfold Marked
    decide +kernel
  fileBits := fun f hf c hc => by
    obtain rfl := oneFile_clusters hf hc
    unfold Marked
    decide +kernel

theorem write_round_trip_oneFile :
    ∃ fi k, Entered oneFile (oneFile.exfatWriteFile [0x41] (fun _ => 0x41) 1).fs [0x41]
      (fun _ => 0x41) 1 fi k :=
  write_round_trip oneFile_fileVolume (by decide) (by decide) (by decide) (by decide +kernel)
    (fun _ => 0x41) (by decide) (by decide +kernel)

end Exfat

end WinDOS
