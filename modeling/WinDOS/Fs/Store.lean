import WinDOS.Fs.Overwrites
import WinDOS.Lib.Trace

/-!
# The volume as a store

What a program sees of a volume is what `exfat_find` and `exfat_read_file` return for a name.
Seen so, calls of `exfat_write_file` enter values in a store that keeps the first one: a call
that returns 0 on a taken name leaves a file that no call finds, and a call that fails changes
no file, though it may use up a cluster.
-/

set_option autoImplicit false

namespace WinDOS

open Bytes WriteOnce

/-- The bytes of a name before its NUL. -/
abbrev FileName := { name : List Byte // ∀ c ∈ name, c ≠ 0 }

/-- What reading a file into a buffer returns. -/
abbrev Reader := Buf → Option (Int × Buf)

theorem xstrcmp_eq_zero_iff {a b : List Byte} (ha : ∀ c ∈ a, c ≠ 0) (hb : ∀ c ∈ b, c ≠ 0) :
    xstrcmp a b = 0 ↔ a = b := by
  induction a generalizing b with
  | nil =>
    cases b with
    | nil => exact iff_of_true rfl rfl
    | cons c cs =>
      have hc : c.toNat ≠ 0 := fun h => hb c List.mem_cons_self (BitVec.eq_of_toNat_eq h)
      rw [xstrcmp]
      exact iff_of_false (by omega) (List.cons_ne_nil c cs).symm
  | cons c cs ih =>
    have hc0 := ha c List.mem_cons_self
    have hc : c.toNat ≠ 0 := fun h => hc0 (BitVec.eq_of_toNat_eq h)
    cases b with
    | nil =>
      rw [xstrcmp]
      exact iff_of_false (by omega) (List.cons_ne_nil c cs)
    | cons d ds =>
      rw [xstrcmp, List.cons.injEq]
      by_cases hcd : c = d
      · rw [if_pos ⟨hc0, hcd⟩, ih (fun e he => ha e (List.mem_cons_of_mem c he))
          fun e he => hb e (List.mem_cons_of_mem d he)]
        exact (and_iff_right hcd).symm
      · rw [if_neg fun h => hcd h.2]
        have hne : c.toNat ≠ d.toNat := fun h => hcd (BitVec.eq_of_toNat_eq h)
        exact iff_of_false (by omega) fun h => hcd h.1

namespace Exfat

def reader (fs : Exfat) (f : ExfatFileInfo) : Reader := fun buf =>
  readResult (fs.exfatReadFile f.firstCluster f.dataLen buf)

/-- `exfat_find`, and then `exfat_read_file` with what it found. -/
def lookup (fs : Exfat) (name : FileName) : Option Reader :=
  match fs.exfatFind fs.boot.rootDirCluster name with
  | (some f, fs) => some (fs.reader f)
  | (none, _) => none

/-! ### What one call leaves of the files -/

section Volume

variable {fs : Exfat} (hv : RootVolume fs)
include hv

theorem RootVolume.lookup_eq (name : FileName) :
    fs.lookup name = (fs.rootFiles.find? fun f => xstrcmp f.name name = 0).map fs.reader := by
  obtain ⟨n, tmp, log, hlist⟩ := hv.list_eq hv.rootIn.1 (hv.ne_chainEnd hv.rootIn) hv.rootEnd 64
  unfold lookup
  rw [exfatFind_eq hv.ok hlist]
  cases hfind : fs.rootFiles.find? fun f => xstrcmp f.name name = 0 with
  | none => rw [show parseDirCluster (fs.clusterBytes fs.boot.rootDirCluster) fs.bpc 64 =
      fs.rootFiles from rfl, hfind]; rfl
  | some f =>
    rw [show parseDirCluster (fs.clusterBytes fs.boot.rootDirCluster) fs.bpc 64 =
      fs.rootFiles from rfl, hfind]
    refine congrArg some (funext fun buf => ?_)
    unfold reader exfatReadFile
    rw [if_pos hv.ok, if_pos (show (fs.after n tmp log).ok = true from hv.ok)]
    exact readLoop_congr hv.toReadVolume (after_readVolume hv.toReadVolume n tmp log) rfl
      (fun d _ => ⟨fun _ _ => rfl, rfl⟩) _ _ _

/-- The clusters that hold a file, as the bitmap has them. -/
def Holds (fs : Exfat) (c : Nat) : Prop :=
  fs.InHeap c ∧ c ≠ fs.boot.rootDirCluster ∧ c ≠ fs.bitmapCluster ∧
    (c < fs.boot.clusterCount → fs.Marked c)

/-- A volume with the same files reads them alike if their clusters are the same. -/
theorem RootVolume.reader_kept {m : Media Dev} {log : List (Nat × Nat)}
    (hm : m.faults = fs.disks.media.faults)
    (hkept : ∀ c, fs.Holds c → ∀ i < fs.bpc,
      (fs.withMedia m log).clusterBytes c i = fs.clusterBytes c i)
    (hfat : ∀ c, fs.InHeap c → (fs.withMedia m log).fatEntry c = fs.fatEntry c)
    {f : ExfatFileInfo} (hf : f ∈ fs.rootFiles) : (fs.withMedia m log).reader f = fs.reader f := by
  funext buf
  unfold reader exfatReadFile
  rw [if_pos hv.ok, if_pos (show (fs.withMedia m log).ok = true from hv.ok)]
  refine readLoop_congr hv.toReadVolume (withMedia_readVolume hv.toReadVolume hm log) rfl
    (fun d hd => ?_) _ _ _
  have hholds := hv.files f hf d hd
  exact ⟨hkept d hholds, hfat d hholds.1⟩

theorem RootVolume.rejected {fname : List Byte} {data : Buf} {size : Nat}
    (hcode : (fs.exfatWriteFile fname data size).code ≠ 0) :
    ∃ m log, m.faults = fs.disks.media.faults ∧
      (fs.exfatWriteFile fname data size).fs = fs.withMedia m log ∧
      Untouched fs (fs.withMedia m log) ∧ ∀ c, fs.Holds c → ∀ i < fs.bpc,
        (fs.withMedia m log).clusterBytes c i = fs.clusterBytes c i := by
  have hsame : ∀ n log, Untouched fs (fs.after n fs.tmp log) := fun n log =>
    ⟨fun i _ => rfl, fun c _ h => h, fun c _ => rfl⟩
  have hbpc := hv.bpc
  by_cases hearly : nameLen fname = 0 ∨ size > fs.bpc
  · have hrun : fs.exfatWriteFile fname data size = .early (-2) fs := by
      unfold exfatWriteFile
      rw [if_pos hv.ok, if_pos hearly]
    rw [hrun]
    exact ⟨fs.disks.media, fs.log, rfl, rfl, hsame fs.disks.media.issued fs.log,
      fun _ _ _ _ => rfl⟩
  have hsize : size ≤ fs.bpc := by omega
  rcases hv.toSectorVolume.searched data (hv.searches (fun h => hearly (.inl h)) hsize) with
    ⟨-, n, log, hrun⟩ | ⟨cc, log, hcc, hrun⟩
  · rw [hrun]
    exact ⟨{ fs.disks.media with issued := n }, log, rfl, rfl, hsame n log, fun _ _ _ _ => rfl⟩
  obtain ⟨m3, log3, h3, hstop⟩ := hv.writeVolume.chosen_outcome log cc fname data hsize hrun
  rcases hstop with ⟨h, -⟩ | ⟨-, m4, log4, h4, hm4, hstop⟩
  · exact absurd (fun j _ => hv.served _) h
  rcases hstop with ⟨-, -, hfs⟩ | ⟨-, -, m5, log5, -, hzero, -, -⟩
  · refine ⟨m4, log4, hm4, hfs, hv.untouched hcc h3 h4 hsize, fun c hc i hi => ?_⟩
    obtain ⟨hin, -, hmap, hmarked⟩ := hc
    have hne : c ≠ cc := fun h => hv.unmarked hcc (h ▸ hmarked (h ▸ hcc.2.1))
    have hj : i / 512 < fs.spc := by omega
    refine (hv.cluster_outside hv.bitmapIn h4 (hv.cells_apart hin hv.bitmapIn hmap _ hj)
      (by omega)).trans ?_
    exact h3.outside _ (fun j hj' _ => hv.cells_apart hin hcc.inHeap hne _ hj j (by omega)) _
      (by omega)
  · exact absurd (hzero.mpr (hv.done _)) hcode

theorem RootVolume.accepted {fname : List Byte} (hlen : fname.length ≤ 15)
    (hname : ∀ c ∈ fname, c ≠ 0) (hfew : fs.rootFiles.length < 64) {data : Buf} {size : Nat}
    (hcode : (fs.exfatWriteFile fname data size).code = 0) :
    ∃ cc m log, m.faults = fs.disks.media.faults ∧
      (fs.exfatWriteFile fname data size).fs = fs.withMedia m log ∧
      (fs.withMedia m log).rootFiles = fs.rootFiles ++ [enteredFile fname size cc] ∧
      (fs.withMedia m log).reader (enteredFile fname size cc) =
        (fun buf => some (0, blit buf 0 data size)) ∧
      ∀ f ∈ fs.rootFiles, (fs.withMedia m log).reader f = fs.reader f := by
  obtain ⟨hnlen, hsize, -, -⟩ := (hv.outcome fname data size).1.mp hcode
  obtain ⟨cc, m, log, hcc, hroom, hm, hfs, hroot, -, hdata, hother, hfat⟩ :=
    hv.written hnlen hsize hcode
  have hcount := hv.small.2
  have hparse := hv.parse_put hfew hroom hname (by omega)
    (show cc < 2 ^ 32 by have := hcc.2.1; omega)
    (show size < 2 ^ 64 by have := hv.bpc; have := hv.few; omega)
  rw [List.take_of_length_le hlen] at hparse
  refine ⟨cc, m, log, hm, hfs, (parseDirCluster_congr hroot hv.dvd 64).trans hparse,
    funext fun buf => ?_, fun f hf => ?_⟩
  · refine ((withMedia_readVolume hv.toReadVolume hm log).read_single hcc.1
      (hv.ne_chainEnd hcc.inHeap) hsize buf).trans ?_
    rw [blit_congr hdata]
  · refine hv.reader_kept hm (fun c hc => ?_) hfat hf
    obtain ⟨hin, hr, hmap, hmarked⟩ := hc
    exact hother c hin hr hmap fun h => hv.unmarked hcc (h ▸ hmarked (h ▸ hcc.2.1))

end Volume

/-! ### Runs of calls -/

def WriteCall.key (c : WriteCall) : FileName := ⟨c.fname, c.name⟩

/-- The data of the call, as reading the file delivers it. -/
def WriteCall.reader (c : WriteCall) : Reader := fun buf => some (0, blit buf 0 c.data c.size)

def afterCalls (fs : Exfat) (cs : List WriteCall) : Exfat := cs.foldl (fun fs c => (c.run fs).fs) fs

/-- What the calls that return 0 enter, in their order. -/
def entered : Exfat → List WriteCall → List (FileName × Reader)
  | _, [] => []
  | fs, c :: cs =>
    (if (c.run fs).code = 0 then [(c.key, c.reader)] else []) ++ entered (c.run fs).fs cs

/-- One call enters its data under its name if it returns 0, and else nothing. -/
theorem RootVolume.store_step {fs : Exfat} (hv : RootVolume fs) {c : WriteCall}
    (hlen : c.fname.length ≤ 15) (hfew : fs.rootFiles.length < 64) :
    RootVolume (c.run fs).fs ∧ (c.run fs).fs.rootFiles.length ≤ fs.rootFiles.length + 1 ∧
      (c.run fs).fs.lookup =
        if (c.run fs).code = 0 then put fs.lookup c.key c.reader else fs.lookup := by
  by_cases hcode : (c.run fs).code = 0
  · have hv' := (hv.of_entered hlen c.name hfew c.data hcode).1
    obtain ⟨cc, m, log, hm, hfs, hfiles, hnew, hold⟩ := hv.accepted hlen c.name hfew hcode
    have hrun : (c.run fs).fs = fs.withMedia m log := hfs
    rw [if_pos hcode, hrun, hfiles, List.length_append]
    rw [show (fs.exfatWriteFile c.fname c.data c.size).fs = fs.withMedia m log from hfs] at hv'
    refine ⟨hv', le_refl _, funext fun name => ?_⟩
    rw [hv'.lookup_eq, put, hv.lookup_eq, hfiles, List.find?_append]
    cases hfind : fs.rootFiles.find? fun f => xstrcmp f.name name = 0 with
    | some f =>
      rw [Option.some_or, Option.map_some, Option.map_some, Option.some_or,
        hold f (List.mem_of_find?_eq_some hfind)]
    | none =>
      rw [Option.none_or, Option.map_none, Option.none_or]
      by_cases hname : name = c.key
      · have hzero : xstrcmp c.fname name = 0 := by
          rw [hname]
          exact xstrcmp_self c.fname
        have hfirst : [enteredFile c.fname c.size cc].find? (fun f => xstrcmp f.name name = 0) =
            some (enteredFile c.fname c.size cc) := List.find?_cons_of_pos (decide_eq_true hzero)
        rw [if_pos hname, hfirst, Option.map_some, hnew]
        rfl
      · have hne : ¬ xstrcmp c.fname name = 0 := fun h =>
          hname (Subtype.ext ((xstrcmp_eq_zero_iff c.name name.2).mp h).symm)
        have hnone : [enteredFile c.fname c.size cc].find? (fun f => xstrcmp f.name name = 0) =
            none := List.find?_cons_of_neg fun h => hne (of_decide_eq_true h)
        rw [if_neg hname, hnone]
        rfl
  · obtain ⟨m, log, hm, hfs, huntouched, hkept⟩ := hv.rejected hcode
    obtain ⟨hv', hfiles⟩ := hv.of_untouched hm huntouched
    have hrun : (c.run fs).fs = fs.withMedia m log := hfs
    rw [if_neg hcode, hrun, hfiles]
    refine ⟨hv', Nat.le_succ _, funext fun name => ?_⟩
    rw [hv'.lookup_eq, hv.lookup_eq, hfiles]
    cases hfind : fs.rootFiles.find? fun f => xstrcmp f.name name = 0 with
    | none => rfl
    | some f =>
      rw [Option.map_some, Option.map_some,
        hv.reader_kept hm hkept huntouched.fat (List.mem_of_find?_eq_some hfind)]

/-- Runs of calls refine a store that keeps the first value of a name. -/
theorem RootVolume.store_run {start : Exfat} (hv : RootVolume start) {cs : List WriteCall}
    (hlen : ∀ c ∈ cs, c.fname.length ≤ 15) (hfew : start.rootFiles.length + cs.length ≤ 64) :
    RootVolume (start.afterCalls cs) ∧
      (start.afterCalls cs).lookup = putAll start.lookup (entered start cs) := by
  induction cs generalizing start with
  | nil => exact ⟨hv, rfl⟩
  | cons c cs ih =>
    rw [List.length_cons] at hfew
    obtain ⟨hv', hfiles, hstep⟩ := hv.store_step (hlen c List.mem_cons_self) (by omega)
    obtain ⟨hend, hlookup⟩ := ih hv' (fun d hd => hlen d (List.mem_cons_of_mem c hd)) (by omega)
    refine ⟨hend, hlookup.trans ?_⟩
    rw [hstep, entered]
    split <;> rfl

/-- After any run of calls a name has the file it had at the start, or else that of the first
call with this name that returned 0; later calls with the name change nothing. -/
theorem write_run_keeps_first {start : Exfat} (hv : RootVolume start) {cs : List WriteCall}
    (hlen : ∀ c ∈ cs, c.fname.length ≤ 15) (hfew : start.rootFiles.length + cs.length ≤ 64)
    (name : FileName) :
    (start.afterCalls cs).lookup name = (start.lookup name).or (first (entered start cs) name) := by
  rw [(hv.store_run hlen hfew).2]
  exact putAll_eq start.lookup (entered start cs) name

theorem write_run_keeps_first_oneFile :
    (oneFile.afterCalls [writeLogin 0x41, writeLogin 0x42]).lookup (writeLogin 0x43).key =
      (oneFile.lookup (writeLogin 0x43).key).or
        (first (entered oneFile [writeLogin 0x41, writeLogin 0x42]) (writeLogin 0x43).key) :=
  have hfew : oneFile.rootFiles.length + [writeLogin 0x41, writeLogin 0x42].length ≤ 64 := by
    decide +kernel
  write_run_keeps_first oneFile_fileVolume.toRootVolume (by decide) hfew (writeLogin 0x43).key

end Exfat

end WinDOS
