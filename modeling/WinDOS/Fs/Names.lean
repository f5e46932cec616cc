import WinDOS.Fs.ListSafe
import Mathlib.Data.List.Perm.Basic

/-!
# Names of more than 15 characters

`exfat_write_file` puts every name into one name entry. What the list of the root directory shows
of a name that does not fit.
-/

set_option autoImplicit false

namespace WinDOS

open Bytes

namespace Exfat

/-! ### The list of a directory -/

/-- However many files the list takes, the new entry set makes it no shorter. -/
theorem length_parseDirCluster_put {rd : Buf} {bpc size cc max : Nat} {fname : List Byte}
    (hdvd : 32 ∣ bpc) (hroom : dirEnd rd bpc bpc 0 + 96 ≤ bpc)
    (hzero : fname.length < 15 → ∀ i, dirEnd rd bpc bpc 0 ≤ i → i < bpc → rd i = 0)
    (hname : ∀ c ∈ fname, c ≠ 0) (hlen : fname.length ≤ 255) (hcc : cc < 2 ^ 32)
    (hsize : size < 2 ^ 64) : (parseDirCluster rd bpc max).length ≤
      (parseDirCluster (putEntrySet rd (dirEnd rd bpc bpc 0) fname size cc) bpc max).length := by
  have hall : ∀ cb n, parseDirCluster cb bpc n = (windowFiles cb bpc bpc bpc 0).take n := fun cb n =>
    parseEntries_eq_windowFiles cb bpc bpc 0 (Nat.zero_le n)
  have hput := @parseDirCluster_put rd bpc size cc ((windowFiles rd bpc bpc bpc 0).length + 1) fname
    hdvd hroom hzero hname hlen hcc hsize (by rw [hall, List.length_take]; omega)
  rw [hall, hall] at hput
  have hlength := congrArg List.length hput
  rw [List.length_append, List.length_take, List.length_take, List.length_singleton] at hlength
  rw [hall, hall, List.length_take, List.length_take]
  omega

theorem length_exfatListDir_le (fs : Exfat) (c max : Nat) : (fs.exfatListDir c max).1.length ≤ max := by
  unfold exfatListDir
  split
  · exact length_listLoop_le (Nat.zero_le max)
  · exact Nat.zero_le max

theorem listLoop_prefix (max fuel : Nat) (fs : Exfat) (c : Nat) (out : List ExfatFileInfo) :
    ∃ more, (listLoop max fuel fs c out).1 = out ++ more := by
  have hstay : ∃ more, out = out ++ more := ⟨[], (List.append_nil out).symm⟩
  induction fuel generalizing fs c out with
  | zero => exact hstay
  | succ fuel ih =>
    rw [listLoop]
    by_cases hc : 2 ≤ c ∧ c ≠ CHAIN_END
    · rw [if_pos hc]
      rcases fs.readCluster c fs.tmp with ⟨_ | _, tmp, gs⟩
      · exact hstay
      · dsimp only
        by_cases hnone : (parseDirCluster tmp gs.bpc (max - out.length)).length = 0
        · rw [if_pos hnone]
          exact hstay
        · rw [if_neg hnone]
          obtain ⟨more, hmore⟩ := ih _ _ _ ⟨[], (List.append_nil _).symm⟩
          exact ⟨_, hmore.trans (List.append_assoc ..)⟩
    · rw [if_neg hc]
      exact hstay

/-- A list that shows anything shows the files of the first cluster first. -/
theorem SectorVolume.list_first {fs : Exfat} (hv : SectorVolume fs) (c max : Nat) :
    (fs.exfatListDir c max).1 = [] ∨ ∃ more,
      (fs.exfatListDir c max).1 = parseDirCluster (fs.clusterBytes c) fs.bpc max ++ more := by
  unfold exfatListDir
  rw [if_pos hv.ok, listLoop]
  by_cases hc : 2 ≤ c ∧ c ≠ CHAIN_END
  · rw [if_pos hc]
    by_cases hread : ∀ j < fs.spc, fs.served (fs.issued + j)
    · obtain ⟨log, hrun⟩ := readCluster_served hv.bps hread c fs.tmp
      have hparse : parseDirCluster (blit fs.tmp 0 (fs.clusterBytes c) (fs.spc * 512)) fs.bpc max =
          parseDirCluster (fs.clusterBytes c) fs.bpc max :=
        parseDirCluster_congr (fun i hi => by
          have := hv.bpc
          rw [blit_in (by omega) (by omega), Nat.sub_zero]) hv.dvd max
      rw [hrun]
      dsimp only
      rw [List.length_nil, Nat.sub_zero, List.nil_append, after_bpc, hparse]
      refine .inr ?_
      by_cases hnone : (parseDirCluster (fs.clusterBytes c) fs.bpc max).length = 0
      · rw [if_pos hnone, List.length_eq_zero_iff.mp hnone]
        exact ⟨[], rfl⟩
      · rw [if_neg hnone]
        exact listLoop_prefix _ _ _ _ _
    · obtain ⟨buf, m, log, hrun⟩ := readCluster_failed hread c fs.tmp
      rw [hrun]
      exact .inl rfl
  · rw [if_neg hc]
    exact .inl rfl

/-! ### Long names -/

/-- The sectors that a directory in the clusters of `P` is read from: theirs, and those of the FAT
with their entries. -/
def DirSector (fs : Exfat) (P : Nat → Prop) (a : Nat) : Prop :=
  fs.Protected P a ∨ ∃ c, P c ∧ a = fs.addr (fs.fatLba c)

/-- A call that returns 0 adds one file with the name `fname` to the list of the root directory; a
call that fails leaves the root directory, the clusters of `P`, as it was. -/
def NameKept (fs : Exfat) (P : Nat → Prop) (fname : List Byte) (data : Buf) (size : Nat) : Prop :=
  ((fs.exfatWriteFile fname data size).code = 0 → ∃ fi, fi.name = fname ∧
    ((fs.exfatWriteFile fname data size).fs.exfatListDir fs.boot.rootDirCluster 64).1.Perm
      ((fs.exfatListDir fs.boot.rootDirCluster 64).1 ++ [fi])) ∧
  ((fs.exfatWriteFile fname data size).code ≠ 0 →
    fs.SectorsKept (fs.DirSector P) (fs.exfatWriteFile fname data size).fs)

/-- The call fails, and what it has stored by then leaves the sectors of `Q` as they were. -/
def FailsCleanly (fs : Exfat) (Q : Nat → Prop) (fname : List Byte) (data : Buf) (size : Nat) : Prop :=
  ¬ fs.Succeeds fname size ∧ fs.GivesUpCleanly Q fname data size

/-- What else the call stores may change the list of the root directory: its first cluster goes on
behind sector 2^32, or a later cluster shows the very file that the call enters. -/
def Forgeable (fs : Exfat) (fname : List Byte) (size : Nat) : Prop :=
  2 ^ 32 < fs.clusterToLba fs.boot.rootDirCluster + fs.spc ∨
    ∃ cc, fs.FirstClear cc ∧ enteredFile (fname.take 15) size cc ∈
      (fs.exfatListDir fs.boot.rootDirCluster 64).1.drop fs.rootFiles.length

theorem DirSector.lt {fs : Exfat} {P : Nat → Prop} {a : Nat} (h : fs.DirSector P a) : a < 2 ^ 32 := by
  rcases h with h | ⟨c, -, rfl⟩
  · exact h.lt
  · unfold addr fatLba wrap32 lba28
    split <;> omega

/-- A call that returns 0 has written the entry set to the first cluster of the root directory,
whatever it stored there before. -/
theorem WriteVolume.root_written {fs : Exfat} (hv : WriteVolume fs) (fname : List Byte) (data : Buf)
    (size : Nat) (hlow : fs.clusterToLba fs.boot.rootDirCluster + fs.spc ≤ 2 ^ 32)
    (hcode : (fs.exfatWriteFile fname data size).code = 0) :
    ∃ cc m log, fs.FirstClear cc ∧ size ≤ fs.bpc ∧ fs.Room ∧
      (fs.exfatWriteFile fname data size).fs = fs.withMedia m log ∧
      ∀ i < fs.bpc, (fs.withMedia m log).clusterBytes fs.boot.rootDirCluster i =
        putEntrySet fs.rootBuf (dirEnd fs.rootBuf fs.bpc fs.bpc 0) fname size cc i := by
  have hbpc := hv.bpc
  rcases write_cases (fun _ => hv) fname data size with ⟨-, hno, -⟩ | ⟨cc, log, -, hs, hcc, hrun⟩
  · exact absurd hcode hno
  obtain ⟨m3, log3, -, hstop⟩ := hv.chosen_outcome log cc fname data hs.2.1 hrun
  rcases hstop with ⟨-, hno, -⟩ | ⟨-, m4, log4, -, -, hstop⟩
  · exact absurd hcode hno
  rcases hstop with ⟨-, hno, -⟩ | ⟨-, hroom, m5, log5, h5, hzero, -, hfs⟩
  · exact absurd hcode hno
  refine ⟨cc, m5, log5, hcc, hs.2.1, hroom, hfs, fun i hi => ?_⟩
  have hj : i / 512 < fs.spc := by omega
  have hput : fs.putAddr fs.boot.rootDirCluster (i / 512) =
      fs.cellAddr fs.boot.rootDirCluster (i / 512) := putAddr_of_lt (by
    unfold putAddr addr lba28
    split <;> omega)
  have hbyte := h5.inside (i / 512) hj ((hzero.mp hcode).stored hj) (i % 512) (by omega)
  rwa [hput, show i / 512 * 512 + i % 512 = i by omega] at hbyte

/-- After a call that returns 0 the first cluster of the root directory shows its files and one
more, with the characters of the name that fit one entry. -/
theorem WriteVolume.long_listed {fs : Exfat} (hv : WriteVolume fs) {fname : List Byte}
    (hlong : 16 ≤ fname.length) (hlen : fname.length ≤ 255) (hname : ∀ c ∈ fname, c ≠ 0) (data : Buf)
    (size : Nat) (hcount : fs.boot.clusterCount < 2 ^ 32)
    (hlow : fs.clusterToLba fs.boot.rootDirCluster + fs.spc ≤ 2 ^ 32)
    (hcode : (fs.exfatWriteFile fname data size).code = 0) :
    ∃ cc m log, fs.FirstClear cc ∧
      (fs.exfatWriteFile fname data size).fs = fs.withMedia m log ∧
      fs.rootFiles.length ≤ (fs.withMedia m log).rootFiles.length ∧
      (fs.rootFiles.length < 64 → (fs.withMedia m log).rootFiles =
        fs.rootFiles ++ [enteredFile (fname.take 15) size cc]) := by
  obtain ⟨cc, m, log, hcc, hsize, hroom, hfs, hroot⟩ := hv.root_written fname data size hlow hcode
  have hsmall : fs.bpc ≤ 8192 := hv.small
  have hparse : parseDirCluster fs.rootBuf fs.bpc 64 = fs.rootFiles :=
    parseDirCluster_congr (fun i hi => hv.rootBuf_eq hi) hv.dvd 64
  have hfiles : (fs.withMedia m log).rootFiles = parseDirCluster
      (putEntrySet fs.rootBuf (dirEnd fs.rootBuf fs.bpc fs.bpc 0) fname size cc) fs.bpc 64 :=
    parseDirCluster_congr hroot hv.dvd 64
  refine ⟨cc, m, log, hcc, hfs, ?_, fun hfew => ?_⟩
  · rw [hfiles, ← hparse]
    exact length_parseDirCluster_put hv.dvd hroom (fun h => absurd h (by omega)) hname hlen
      (show cc < 2 ^ 32 by have := hcc.2.1; omega) (by omega)
  · rw [hfiles, ← hparse]
    exact parseDirCluster_put hv.dvd hroom (fun h => absurd h (by omega)) hname hlen
      (show cc < 2 ^ 32 by have := hcc.2.1; omega) (by omega) (by rwa [hparse])

/-- A name of more than 15 characters is not kept by a call that returns 0. -/
theorem WriteVolume.not_kept_of_zero {fs : Exfat} (hv : WriteVolume fs) {fname : List Byte}
    (hlong : 16 ≤ fname.length) (hlen : fname.length ≤ 255) (hname : ∀ c ∈ fname, c ≠ 0) (data : Buf)
    (size : Nat) (hcount : fs.boot.clusterCount < 2 ^ 32) (hforge : ¬ fs.Forgeable fname size)
    (hcode : (fs.exfatWriteFile fname data size).code = 0) {fi : ExfatFileInfo}
    (hfi : fi.name = fname) :
    ¬ ((fs.exfatWriteFile fname data size).fs.exfatListDir fs.boot.rootDirCluster 64).1.Perm
      ((fs.exfatListDir fs.boot.rootDirCluster 64).1 ++ [fi]) := by
  intro hperm
  obtain ⟨hlow, hlater⟩ := not_or.mp hforge
  obtain ⟨cc, m, log, hcc, hfs, hmost, hadded⟩ :=
    hv.long_listed hlong hlen hname data size hcount (Nat.not_lt.mp hlow) hcode
  have hgs : SectorVolume (fs.withMedia m log) := ⟨hv.ok, hv.bps, hv.spc, hv.bpc⟩
  rw [hfs] at hperm
  have hlength := hperm.length_eq
  rw [List.length_append, List.length_singleton] at hlength
  have hbound : ((fs.withMedia m log).exfatListDir fs.boot.rootDirCluster 64).1.length ≤ 64 :=
    length_exfatListDir_le _ _ 64
  have hne : enteredFile (fname.take 15) size cc ≠ fi := fun h => by
    have hcut := congrArg (fun fi => fi.name.length) h
    change (fname.take 15).length = fi.name.length at hcut
    rw [hfi, List.length_take] at hcut
    omega
  rcases hgs.list_first fs.boot.rootDirCluster 64 with hnil | ⟨more', hafter⟩
  · rw [hnil, List.length_nil] at hlength
    omega
  change _ = (fs.withMedia m log).rootFiles ++ more' at hafter
  rw [hafter, List.length_append] at hlength hbound
  rw [hafter] at hperm
  by_cases hfew : fs.rootFiles.length < 64
  · rw [hadded hfew, List.append_assoc, List.singleton_append] at hperm
    rcases hv.toSectorVolume.list_first fs.boot.rootDirCluster 64 with hnil | ⟨more, hbefore⟩
    · -- nothing was listed before, so the new file is the only one
      rw [hnil, List.nil_append] at hperm
      have hmem := hperm.subset (List.mem_append_right _ List.mem_cons_self)
      exact hne (List.mem_singleton.mp hmem)
    · change _ = fs.rootFiles ++ more at hbefore
      rw [hbefore, List.append_assoc, List.perm_append_left_iff] at hperm
      rcases List.mem_append.mp (hperm.subset List.mem_cons_self) with hmem | hmem
      · refine hlater ⟨cc, hcc, ?_⟩
        rwa [hbefore, List.drop_left]
      · exact hne (List.mem_singleton.mp hmem)
  · -- the first cluster fills the list
    rcases hv.toSectorVolume.list_first fs.boot.rootDirCluster 64 with hnil | ⟨more, hbefore⟩
    · rw [hnil, List.length_nil] at hlength
      omega
    · change _ = fs.rootFiles ++ more at hbefore
      rw [hbefore, List.length_append] at hlength
      omega

/-- A name of more than 15 characters is kept if the call fails cleanly, and, where nothing else it
stores can change the list, only then. -/
theorem long_name_kept_iff {fs : Exfat} (hv : fs.ok = true → WriteVolume fs)
    (hcount : fs.boot.clusterCount < 2 ^ 32) {fname : List Byte} (hlong : 16 ≤ fname.length)
    (hlen : fname.length ≤ 255) (hascii : ∀ c ∈ fname, 0 < c.toNat ∧ c.toNat < 128)
    (P : Nat → Prop) (data : Buf) (size : Nat) :
    (fs.FailsCleanly (fs.DirSector P) fname data size → NameKept fs P fname data size) ∧
      (NameKept fs P fname data size →
        fs.FailsCleanly (fs.DirSector P) fname data size ∨ fs.Forgeable fname size) := by
  have hname : ∀ c ∈ fname, c ≠ 0 := fun c hc h => by
    have := (hascii c hc).1
    rw [h] at this
    exact absurd this (by decide)
  have hzero := write_zero_iff hv fname data size
  have hkept := @sectorsKept_iff fs hv fname data size (fs.DirSector P) fun a h => h.lt
  constructor
  · rintro ⟨hfails, hclean⟩
    exact ⟨fun h => absurd (hzero.mp h) hfails, hkept.mpr hclean⟩
  · rintro ⟨hlisted, hdir⟩
    by_cases hcode : (fs.exfatWriteFile fname data size).code = 0
    · obtain ⟨fi, hfi, hperm⟩ := hlisted hcode
      refine .inr (by_contra fun hforge => ?_)
      exact (hv (hzero.mp hcode).1).not_kept_of_zero hlong hlen hname data size hcount hforge hcode
        hfi hperm
    · exact .inl ⟨fun h => hcode (hzero.mpr h), hkept.mp hdir⟩

theorem long_name_kept_oneFile :
    (oneFile.FailsCleanly (oneFile.DirSector (· = 5)) (List.replicate 20 0x41) (fun _ => 0x41) 1 →
        NameKept oneFile (· = 5) (List.replicate 20 0x41) (fun _ => 0x41) 1) ∧
      (NameKept oneFile (· = 5) (List.replicate 20 0x41) (fun _ => 0x41) 1 →
        oneFile.FailsCleanly (oneFile.DirSector (· = 5)) (List.replicate 20 0x41) (fun _ => 0x41) 1 ∨
          oneFile.Forgeable (List.replicate 20 0x41) 1) :=
  long_name_kept_iff (fun _ => oneFile_fileVolume.writeVolume) (by decide) (by decide) (by decide)
    (by decide) (· = 5) (fun _ => 0x41) 1

/-- The call returns 0, and the new file is listed under the first 15 characters. -/
theorem long_name_cut : RootVolume oneFile ∧
    (oneFile.exfatWriteFile (List.replicate 20 0x41) (fun _ => 0x41) 1).code = 0 ∧
    ((oneFile.exfatWriteFile (List.replicate 20 0x41) (fun _ => 0x41) 1).fs.exfatListDir 5 64).1.map
      ExfatFileInfo.name = [[0x42], List.replicate 15 0x41] ∧
    ¬ NameKept oneFile (· = 5) (List.replicate 20 0x41) (fun _ => 0x41) 1 := by
  have hcode : (oneFile.exfatWriteFile (List.replicate 20 0x41) (fun _ => 0x41) 1).code = 0 := by
    decide +kernel
  have hnames : ((oneFile.exfatWriteFile (List.replicate 20 0x41)
      (fun _ => 0x41) 1).fs.exfatListDir 5 64).1.map ExfatFileInfo.name =
      [[0x42], List.replicate 15 0x41] := by decide +kernel
  refine ⟨oneFile_fileVolume.toRootVolume, hcode, hnames, fun h => ?_⟩
  obtain ⟨fi, hfi, hperm⟩ := h.1 hcode
  have hnew := hperm.map ExfatFileInfo.name
  rw [List.map_append, List.map_singleton, hfi, show oneFile.boot.rootDirCluster = 5 from rfl,
    hnames] at hnew
  have hmem := hnew.mem_iff.mpr (List.mem_append_right _ (List.mem_singleton_self _))
  exact absurd hmem (by decide)

end Exfat

end WinDOS
