import WinDOS.Fs.RoundTrip
import Mathlib.Logic.Function.Iterate

/-!
# Files without a chain in the FAT

Bit 1 of byte 1 of a stream entry says that the clusters of the file follow one another and that
their entries in the FAT mean nothing. `next_cluster` does not see the flag: it looks the next
cluster up in the FAT whenever the volume has one.
-/

set_option autoImplicit false

namespace WinDOS

open Bytes

namespace Exfat

/-! ### Chains -/

/-- The bytes of the clusters `at_ 0`, `at_ 1` and so on. -/
def chainBytes (fs : Exfat) (at_ : Nat → Nat) : Buf := fun j =>
  fs.clusterBytes (at_ (j / fs.bpc)) (j % fs.bpc)

def fatChain (fs : Exfat) (c k : Nat) : Nat := fs.fatEntry^[k] c

/-- The FAT leads from `c` to as many clusters as `size` bytes take. -/
def ChainLeads (fs : Exfat) (c size : Nat) : Prop :=
  ∀ k, k * fs.bpc < size → 2 ≤ fs.fatChain c k ∧ fs.fatChain c k ≠ CHAIN_END

section Chain

variable {fs : Exfat} (hv : ReadVolume fs)
include hv

theorem ReadVolume.bpc_pos : 0 < fs.bpc := by
  have := hv.bpc
  have := hv.spc
  omega

theorem ReadVolume.chainLeads_iff {c size : Nat} (hsize : size ≠ 0) :
    fs.ChainLeads c size ↔
      2 ≤ c ∧ c ≠ CHAIN_END ∧ fs.ChainLeads (fs.fatEntry c) (size - min size fs.bpc) := by
  have hbpc := hv.bpc_pos
  constructor
  · intro h
    obtain ⟨h2, hne⟩ := h 0 (by omega)
    refine ⟨h2, hne, fun k hk => h (k + 1) ?_⟩
    rw [Nat.add_mul]
    omega
  · rintro ⟨h2, hne, hrest⟩ k hk
    cases k with
    | zero => exact ⟨h2, hne⟩
    | succ k =>
      rw [Nat.add_mul] at hk
      exact hrest k (by omega)

theorem ReadVolume.chainBytes_succ (c : Nat) :
    fs.chainBytes (fs.fatChain (fs.fatEntry c)) = from_ (fs.chainBytes (fs.fatChain c)) fs.bpc := by
  funext j
  unfold from_ chainBytes fatChain
  rw [Nat.add_div_left _ hv.bpc_pos, Nat.add_mod_left, Function.iterate_succ_apply]

/-- Reading delivers the bytes of the chain in the FAT if there is one of that length. -/
theorem ReadVolume.readLoop_leads {fuel c remaining : Nat} (hfuel : remaining ≤ fuel)
    (h : fs.ChainLeads c remaining) (pos : Nat) (buf : Buf) :
    readResult (readLoop fuel fs c remaining pos buf) =
      some (0, blit buf pos (fs.chainBytes (fs.fatChain c)) remaining) := by
  have hbpc := hv.bpc_pos
  induction fuel generalizing fs c remaining pos buf with
  | zero =>
    obtain rfl : remaining = 0 := by omega
    rw [readLoop_done, blit_zero]
    rfl
  | succ fuel ih =>
    by_cases hr : remaining = 0
    · rw [hr, readLoop_done, blit_zero]
      rfl
    obtain ⟨h2, hne, hrest⟩ := (hv.chainLeads_iff hr).mp h
    obtain ⟨n, tmp, log, hround⟩ := hv.readLoop_round hr h2 hne fuel pos buf
    have hfirst : blit buf pos (fs.clusterBytes c) (min remaining fs.bpc) =
        blit buf pos (fs.chainBytes (fs.fatChain c)) (min remaining fs.bpc) :=
      blit_congr fun j hj => by
        unfold chainBytes fatChain
        rw [Nat.div_eq_of_lt (by omega), Nat.mod_eq_of_lt (by omega), Function.iterate_zero_apply]
    rw [hround, ih (after_readVolume hv n tmp log) (by omega) hrest _ _ hbpc, hfirst]
    by_cases hlast : remaining ≤ fs.bpc
    · rw [Nat.min_eq_left hlast, Nat.sub_self, blit_zero]
    · have hmin : min remaining fs.bpc = fs.bpc := by omega
      change some (0, blit _ _ (fs.chainBytes (fs.fatChain (fs.fatEntry c))) _) = _
      rw [hmin, hv.chainBytes_succ c, blit_blit, show fs.bpc + (remaining - fs.bpc) = remaining by omega]

theorem ReadVolume.readLoop_not_leads {fuel c remaining : Nat} (hfuel : remaining ≤ fuel)
    (h : ¬ fs.ChainLeads c remaining) (pos : Nat) (buf : Buf) :
    ∃ buf', readResult (readLoop fuel fs c remaining pos buf) = some (-1, buf') := by
  have hbpc := hv.bpc_pos
  induction fuel generalizing fs c remaining pos buf with
  | zero => exact absurd (fun k hk => absurd hk (by omega)) h
  | succ fuel ih =>
    have hr : remaining ≠ 0 := fun hr => h fun k hk => absurd hk (by omega)
    by_cases hbad : c < 2 ∨ c = CHAIN_END
    · rw [readLoop, if_neg hr]
      dsimp only
      rw [if_pos hbad]
      exact ⟨buf, rfl⟩
    have h2 : 2 ≤ c := by omega
    have hne : c ≠ CHAIN_END := fun hc => hbad (.inr hc)
    obtain ⟨n, tmp, log, hround⟩ := hv.readLoop_round hr h2 hne fuel pos buf
    rw [hround]
    exact ih (after_readVolume hv n tmp log) (by omega)
      (fun hrest => h ((hv.chainLeads_iff hr).mpr ⟨h2, hne, hrest⟩)) _ _ hbpc

theorem ReadVolume.listLoop_after (max fuel c : Nat) (out : List ExfatFileInfo) :
    ∃ n tmp log, (listLoop max fuel fs c out).2 = fs.after n tmp log := by
  induction fuel generalizing fs c out with
  | zero => exact ⟨_, _, _, fs.after_self.symm⟩
  | succ fuel ih =>
    rw [listLoop]
    by_cases hin : 2 ≤ c ∧ c ≠ CHAIN_END
    · obtain ⟨gs, hread, -, hnext⟩ := hv.readCluster_next c fs.tmp
      obtain ⟨n, log, n', log', hset, hnext⟩ :=
        hnext (blit fs.tmp 0 (fs.clusterBytes c) (fs.spc * 512))
      rw [if_pos hin, hread]
      simp only [hset]
      split
      · exact ⟨n, _, log, rfl⟩
      · rw [hnext]
        exact ih (after_readVolume hv n' _ log') _ _
    · rw [if_neg hin]
      exact ⟨_, _, _, fs.after_self.symm⟩

theorem ReadVolume.find_after (dirCluster : Nat) (fname : List Byte) :
    ∃ n tmp log, (fs.exfatFind dirCluster fname).2 = fs.after n tmp log := by
  unfold exfatFind exfatListDir
  rw [if_pos hv.ok, if_pos hv.ok]
  exact hv.listLoop_after 64 65 dirCluster []

end Chain

/-! ### Files -/

/-- The NoFatChain flag of the stream entry at `p`. -/
def noFatChain (cb : Buf) (p : Nat) : Bool := cb (p + 1) &&& 2 ≠ 0

/-- The clusters of a file as the format lays them out. -/
def fileCluster (fs : Exfat) (flag : Bool) (first k : Nat) : Nat :=
  if flag then first + k else fs.fatChain first k

/-- The file `fi` on a volume: its entry set is at offset `off` of a cluster `d`, with the stream
entry after the file entry, and its clusters are in the cluster heap. -/
structure FileAt (fs : Exfat) (d off : Nat) (fi : ExfatFileInfo) : Prop where
  room : off + 64 ≤ fs.bpc
  file : fs.clusterBytes d off = EXFAT_FILE
  stream : fs.clusterBytes d (off + 32) = EXFAT_STREAM
  firstCluster : le (fs.clusterBytes d) (off + 32 + 20) 4 = fi.firstCluster
  dataLen : le (fs.clusterBytes d) (off + 32 + 24) 8 = fi.dataLen
  parsed : (parseSet (fs.clusterBytes d) fs.bpc fs.bpc (off + 32)
    (newFileInfo (fs.clusterBytes d) off)).2 = fi
  inHeap : ∀ k, k * fs.bpc < fi.dataLen →
    fs.InHeap (fs.fileCluster (noFatChain (fs.clusterBytes d) (off + 32)) fi.firstCluster k)

/-- The bytes of a file whose entry set is at offset `off` of cluster `d`. -/
def fileBytes (fs : Exfat) (d off : Nat) (fi : ExfatFileInfo) : Buf :=
  fs.chainBytes (fs.fileCluster (noFatChain (fs.clusterBytes d) (off + 32)) fi.firstCluster)

/-- `exfat_find` and then `exfat_read_file` with what it found. -/
def findAndRead (fs : Exfat) (dirCluster : Nat) (fname : List Byte) (buf : Buf) : Option (Int × Buf) :=
  match fs.exfatFind dirCluster fname with
  | (some fi, fs) => readResult (fs.exfatReadFile fi.firstCluster fi.dataLen buf)
  | (none, _) => none

theorem ReadVolume.findAndRead_eq {fs : Exfat} (hv : ReadVolume fs) {dirCluster : Nat}
    {fname : List Byte} {fi : ExfatFileInfo} (hfound : (fs.exfatFind dirCluster fname).1 = some fi)
    (buf : Buf) : ∃ n tmp log, fs.findAndRead dirCluster fname buf =
      readResult (readLoop fi.dataLen (fs.after n tmp log) fi.firstCluster fi.dataLen 0 buf) := by
  obtain ⟨n, tmp, log, hafter⟩ := hv.find_after dirCluster fname
  refine ⟨n, tmp, log, ?_⟩
  unfold findAndRead
  rw [show fs.exfatFind dirCluster fname = (some fi, fs.after n tmp log) from Prod.ext hfound hafter]
  dsimp only
  rw [exfatReadFile, after_ok, if_pos hv.ok]

/-- The driver delivers the bytes of the chain in the FAT, if there is one of that length. -/
theorem ReadVolume.findAndRead_iff {fs : Exfat} (hv : ReadVolume fs) {dirCluster : Nat}
    {fname : List Byte} {fi : ExfatFileInfo} (hfound : (fs.exfatFind dirCluster fname).1 = some fi)
    (bytes : Buf) :
    (∀ buf, fs.findAndRead dirCluster fname buf = some (0, blit buf 0 bytes fi.dataLen)) ↔
      fs.ChainLeads fi.firstCluster fi.dataLen ∧
        ∀ i < fi.dataLen, fs.chainBytes (fs.fatChain fi.firstCluster) i = bytes i := by
  constructor
  · intro h
    obtain ⟨n, tmp, log, hread⟩ := hv.findAndRead_eq hfound fun _ => 0
    have hread := hread.symm.trans (h fun _ => 0)
    by_cases hleads : fs.ChainLeads fi.firstCluster fi.dataLen
    · refine ⟨hleads, fun i hi => ?_⟩
      have hbytes := ((after_readVolume hv n tmp log).readLoop_leads (Nat.le_refl _) hleads 0
        fun _ => 0).symm.trans hread
      have hbytes := congrFun (Prod.ext_iff.mp (Option.some.inj hbytes)).2 i
      dsimp only at hbytes
      rwa [blit_in (by omega) (by omega), blit_in (by omega) (by omega), Nat.sub_zero] at hbytes
    · obtain ⟨buf', hfail⟩ := (after_readVolume hv n tmp log).readLoop_not_leads (Nat.le_refl _)
        hleads 0 fun _ => 0
      have hcode := (Prod.ext_iff.mp (Option.some.inj (hfail.symm.trans hread))).1
      exact absurd (show (-1 : Int) = 0 from hcode) (by decide)
  · rintro ⟨hleads, hbytes⟩ buf
    obtain ⟨n, tmp, log, hread⟩ := hv.findAndRead_eq hfound buf
    rw [hread, (after_readVolume hv n tmp log).readLoop_leads (Nat.le_refl _) hleads]
    exact congrArg (fun b => some (0, b)) (blit_congr hbytes)

theorem ReadVolume.chainBytes_eq_iff {fs : Exfat} (hv : ReadVolume fs) (size : Nat) (p q : Nat → Nat) :
    (∀ i < size, fs.chainBytes p i = fs.chainBytes q i) ↔
      ∀ k, ∀ j < fs.bpc, k * fs.bpc + j < size →
        fs.clusterBytes (p k) j = fs.clusterBytes (q k) j := by
  have hbpc := hv.bpc_pos
  constructor
  · intro h k j hj hlt
    have := h (k * fs.bpc + j) hlt
    unfold chainBytes at this
    rwa [Nat.mul_comm, Nat.mul_add_div hbpc, Nat.div_eq_of_lt hj, Nat.add_zero, Nat.mul_add_mod,
      Nat.mod_eq_of_lt hj] at this
  · intro h i hi
    exact h (i / fs.bpc) (i % fs.bpc) (Nat.mod_lt _ hbpc) (by rwa [Nat.div_add_mod'])

/-- A file that has been found is read as it is on the volume, unless it has the NoFatChain flag
and the FAT does not lead to as many clusters that hold the same bytes. -/
theorem read_found_iff {fs : Exfat} (hv : ReadVolume fs) (hcount : fs.boot.clusterCount ≤ 2 ^ 32 - 11)
    {d off dirCluster : Nat} {fname : List Byte} {fi : ExfatFileInfo}
    (hfound : (fs.exfatFind dirCluster fname).1 = some fi) (hfile : fs.FileAt d off fi) :
    (∀ buf, fs.findAndRead dirCluster fname buf =
        some (0, blit buf 0 (fs.fileBytes d off fi) fi.dataLen)) ↔
      (noFatChain (fs.clusterBytes d) (off + 32) = true →
        fs.ChainLeads fi.firstCluster fi.dataLen ∧
        ∀ k, ∀ j < fs.bpc, k * fs.bpc + j < fi.dataLen →
          fs.clusterBytes (fs.fatChain fi.firstCluster k) j =
            fs.clusterBytes (fi.firstCluster + k) j) := by
  rw [hv.findAndRead_iff hfound]
  unfold fileBytes
  cases hflag : noFatChain (fs.clusterBytes d) (off + 32) with
  | false =>
    refine iff_of_true ⟨fun k hk => ?_, fun i _ => rfl⟩ fun h => nomatch h
    have hin := hfile.inHeap k hk
    rw [hflag] at hin
    refine ⟨hin.1, fun hend => ?_⟩
    have hlast : CHAIN_END ≤ fs.boot.clusterCount + 1 := hend ▸ hin.2
    have : CHAIN_END = 2 ^ 32 - 1 := rfl
    omega
  | true =>
    rw [hv.chainBytes_eq_iff]
    exact ⟨fun h _ => h, fun h => h rfl⟩

/-- A volume of eight clusters of one sector, mounted from an ATA disk at sector 64: the root
directory is in cluster 5. The only file has 600 bytes in the clusters 6 and 7, with the
NoFatChain flag, and the entry of cluster 6 in the FAT is 0. -/
def flaggedFile : Exfat :=
  mounted 0 5 fun i =>
    match i with
    | 33300 | 33301 | 33302 | 33303 => 0xFF
    | 39424 => 0x85
    | 39456 => 0xC0
    | 39457 => 3
    | 39476 => 6
    | 39480 => 0x58
    | 39481 => 2
    | 39488 => 0xC1
    | 39490 => 0x42
    | _ => 0

theorem flaggedFile_readVolume : ReadVolume flaggedFile :=
  ⟨⟨rfl, rfl, Nat.one_pos, rfl⟩, by decide, fun _ => ⟨rfl, rfl⟩⟩

theorem flaggedFile_found : (flaggedFile.exfatFind 5 [0x42]).1 = some ⟨6, 600, [0x42], false⟩ := by
  decide +kernel

theorem flaggedFile_fileAt : flaggedFile.FileAt 5 0 ⟨6, 600, [0x42], false⟩ where
  room := by decide
  file := by decide +kernel
  stream := by decide +kernel
  firstCluster := by decide +kernel
  dataLen := by decide +kernel
  parsed := by decide +kernel
  inHeap := fun k hk => by
    have hflag : noFatChain (flaggedFile.clusterBytes 5) (0 + 32) = true := by decide +kernel
    rw [hflag]
    have hk : k * 512 < 600 := hk
    exact ⟨show 2 ≤ 6 + k by omega, show 6 + k ≤ 8 + 1 by omega⟩

theorem read_found_flaggedFile :
    (∀ buf, flaggedFile.findAndRead 5 [0x42] buf =
        some (0, blit buf 0 (flaggedFile.fileBytes 5 0 ⟨6, 600, [0x42], false⟩) 600)) ↔
      (noFatChain (flaggedFile.clusterBytes 5) (0 + 32) = true →
        flaggedFile.ChainLeads 6 600 ∧
        ∀ k, ∀ j < 512, k * 512 + j < 600 →
          flaggedFile.clusterBytes (flaggedFile.fatChain 6 k) j =
            flaggedFile.clusterBytes (6 + k) j) :=
  read_found_iff flaggedFile_readVolume (by decide) flaggedFile_found flaggedFile_fileAt

/-- The call fails after the first cluster, although the file's clusters follow one another. -/
theorem flagged_file_not_read :
    ReadVolume flaggedFile ∧
    (flaggedFile.exfatFind 5 [0x42]).1 = some ⟨6, 600, [0x42], false⟩ ∧
    flaggedFile.FileAt 5 0 ⟨6, 600, [0x42], false⟩ ∧
    (flaggedFile.findAndRead 5 [0x42] fun _ => 0).map Prod.fst = some (-1) ∧
    ¬ ∀ buf, flaggedFile.findAndRead 5 [0x42] buf =
      some (0, blit buf 0 (flaggedFile.fileBytes 5 0 ⟨6, 600, [0x42], false⟩) 600) := by
  have hfail : (flaggedFile.findAndRead 5 [0x42] fun _ => 0).map Prod.fst = some (-1) := by
    decide +kernel
  refine ⟨flaggedFile_readVolume, flaggedFile_found, flaggedFile_fileAt, hfail, fun h => ?_⟩
  rw [h] at hfail
  exact absurd hfail (by decide)

end Exfat

end WinDOS
