import WinDOS.Fs.Outcome
import WinDOS.Fs.NoFatChain
import Mathlib.Logic.Relation

/-!
# Writing files again and again

`exfat_write_file` appends a file whether or not the root directory has one of that name, and
`exfat_find` takes the first. Runs of calls keep the names of the root directory apart as long as
every call that enters a file has a new name of at most 15 characters and room among the files
that `exfat_find` looks at.
-/

set_option autoImplicit false

namespace WinDOS

open Bytes

namespace Exfat

/-! ### The directory with a new entry set -/

section Put

variable {rd : Buf} {bpc size cc : Nat} {fname : List Byte}
  (hdvd : 32 ∣ bpc) (hroom : dirEnd rd bpc bpc 0 + 96 ≤ bpc)
  (hname : ∀ c ∈ fname, c ≠ 0) (hlen : fname.length ≤ 15)
include hname hlen

/-- Behind a name of at most 15 characters nothing changes but the end mark. -/
theorem putEntrySet_behind {E i : Nat} (hi : E + 96 ≤ i) (hzero : rd i = 0) :
    putEntrySet rd E fname size cc i = 0 := by
  have hnlen := nameLen_eq hname (by omega)
  unfold putEntrySet
  by_cases hat : i = E + 96
  · rw [hat]
    exact Function.update_self ..
  · rw [Function.update_of_ne hat, hnlen, List.take_length, putName_out (by omega)]
    exact (entryHead_out rd E fname.length size cc (.inr (by omega))).trans hzero

include hroom

theorem dirEnd_put : dirEnd rd bpc bpc 0 + 96 ≤
    dirEnd (putEntrySet rd (dirEnd rd bpc bpc 0) fname size cc) bpc bpc 0 := by
  obtain ⟨-, hE, hused, -⟩ := dirEnd_cases rd (Nat.le_add_left bpc 0) (Nat.dvd_zero 32)
  generalize dirEnd rd bpc bpc 0 = E at *
  obtain ⟨-, hE', -, hend⟩ := dirEnd_cases (putEntrySet rd E fname size cc) (Nat.le_add_left bpc 0)
    (Nat.dvd_zero 32)
  generalize hF : dirEnd (putEntrySet rd E fname size cc) bpc bpc 0 = F at *
  by_contra hlt
  have hbelow := @putEntrySet_below rd E size cc fname hname (by omega)
  have hmark := hend (by omega)
  rcases Nat.lt_or_ge F E with hF | hF
  · rw [hbelow (by omega), entryHead_out _ _ _ _ _ (.inl hF)] at hmark
    exact hused F (Nat.zero_le F) hF hE' hmark
  · obtain rfl | rfl | rfl : F = E ∨ F = E + 32 ∨ F = E + 64 := by omega
    · rw [hbelow (by omega), entryHead_file] at hmark
      exact absurd hmark (by decide)
    · rw [hbelow (by omega), entryHead_stream] at hmark
      exact absurd hmark (by decide)
    · rw [hbelow (by omega), entryHead_name] at hmark
      exact absurd hmark (by decide)

end Put

theorem bitmapEntry_below {rd rd' : Buf} {bpc E : Nat} (hbelow : ∀ i < E, rd' i = rd i)
    (hE : 32 ∣ E) (hend : rd E = EXFAT_EOD) (fuel : Nat) {o : Nat} (ho : 32 ∣ o) (hoE : o ≤ E)
    (hfound : bitmapEntry rd bpc fuel o ≠ 0) :
    bitmapEntry rd' bpc fuel o = bitmapEntry rd bpc fuel o := by
  induction fuel generalizing o with
  | zero => rfl
  | succ fuel ih =>
    rw [bitmapEntry] at hfound
    rw [bitmapEntry, bitmapEntry]
    by_cases hlt : o < bpc
    · rw [if_pos hlt] at hfound
      rw [if_pos hlt, if_pos hlt]
      by_cases hat : o = E
      · rw [hat, hend, if_neg (by decide), if_pos rfl] at hfound
        exact absurd rfl hfound
      · rw [hbelow o (by omega), le_congr fun i h0 h1 => hbelow i (by omega)]
        by_cases hmap : rd o = EXFAT_BITMAP
        · rw [if_pos hmap, if_pos hmap]
        · rw [if_neg hmap] at hfound
          rw [if_neg hmap, if_neg hmap]
          by_cases heod : rd o = EXFAT_EOD
          · rw [if_pos heod, if_pos heod]
          · rw [if_neg heod] at hfound
            rw [if_neg heod, if_neg heod]
            exact ih (by omega) (by omega) hfound
    · rw [if_neg hlt, if_neg hlt]

/-! ### Clusters of files -/

theorem Visits.remaining_ne {next : Nat → Nat} {bpc c r d : Nat} (h : Visits next bpc c r d) :
    r ≠ 0 := by
  cases h <;> assumption

theorem Visits.single {next : Nat → Nat} {bpc c r d : Nat} (h : Visits next bpc c r d)
    (hr : r ≤ bpc) : d = c := by
  cases h with
  | here => rfl
  | later _ _ _ hrest => exact absurd (by omega) hrest.remaining_ne

theorem Visits.congr {next next' : Nat → Nat} {bpc c r d : Nat} (h : Visits next' bpc c r d)
    (hsame : ∀ e, Visits next bpc c r e → next' e = next e) : Visits next bpc c r d := by
  induction h with
  | here hr h2 hne => exact .here hr h2 hne
  | @later c r d hr h2 hne _ ih =>
    have hnext := hsame c (.here hr h2 hne)
    rw [hnext] at ih
    exact .later hr h2 hne (ih fun e he => hsame e (.later hr h2 hne he))

/-! ### The volume after a call -/

section Volume

variable {fs : Exfat} (hv : RootVolume fs)
include hv

/-- A volume stays one if its root directory ends where it should, and a file it lists is an old
one or takes one marked cluster. -/
theorem RootVolume.of_kept {m : Media Dev} {log : List (Nat × Nat)}
    (hm : m.faults = fs.disks.media.faults)
    (hmap : (fs.withMedia m log).bitmapCluster = fs.bitmapCluster)
    (hfat : ∀ c, fs.InHeap c → (fs.withMedia m log).fatEntry c = fs.fatEntry c)
    (hmarks : ∀ c < fs.boot.clusterCount, fs.Marked c → (fs.withMedia m log).Marked c)
    (hzero : ∀ i, dirEnd ((fs.withMedia m log).clusterBytes fs.boot.rootDirCluster) fs.bpc fs.bpc 0 ≤ i →
      i < fs.bpc → (fs.withMedia m log).clusterBytes fs.boot.rootDirCluster i = 0)
    (hfiles : ∀ f ∈ (fs.withMedia m log).rootFiles, f ∈ fs.rootFiles ∨
      f.dataLen ≤ fs.bpc ∧ fs.InHeap f.firstCluster ∧ f.firstCluster ≠ fs.boot.rootDirCluster ∧
        f.firstCluster ≠ fs.bitmapCluster ∧ (fs.withMedia m log).Marked f.firstCluster) :
    RootVolume (fs.withMedia m log) where
  ok := hv.ok
  bps := hv.bps
  spc := hv.spc
  bpc := hv.bpc
  fat := hv.fat
  served n := (withMedia_served hm n).mpr (hv.served n)
  few := hv.few
  bitmapFits := hv.bitmapFits
  fits := hv.fits
  fatApart := hv.fatApart
  rootEnd := (hfat _ hv.rootIn).trans hv.rootEnd
  rootZero := hzero
  rootIn := hv.rootIn
  rootMarked h := hmarks _ h (hv.rootMarked h)
  bitmapIn := by rw [hmap]; exact hv.bitmapIn
  bitmapMarked h := by
    rw [hmap] at h ⊢
    exact hmarks _ h (hv.bitmapMarked h)
  apart := by rw [hmap]; exact hv.apart
  files f hf c hc := by
    rw [hmap]
    rcases hfiles f hf with hold | ⟨hlen, hin, hroot, hbm, hmarked⟩
    · have hold := hv.files f hold
      obtain ⟨hin, hroot, hbm, hmarked⟩ := hold c (hc.congr fun e he => hfat e (hold e he).1)
      exact ⟨hin, hroot, hbm, fun h => hmarks c h (hmarked h)⟩
    · rw [hc.single hlen]
      exact ⟨hin, hroot, hbm, fun _ => hmarked⟩

theorem RootVolume.list : (fs.exfatListDir fs.boot.rootDirCluster 64).1 = fs.rootFiles := by
  obtain ⟨n, tmp, log, hlist⟩ := hv.list_eq hv.rootIn.1 (hv.ne_chainEnd hv.rootIn) hv.rootEnd 64
  rw [hlist]
  rfl

theorem RootVolume.of_untouched {m : Media Dev} {log : List (Nat × Nat)}
    (hm : m.faults = fs.disks.media.faults) (h : Untouched fs (fs.withMedia m log)) :
    RootVolume (fs.withMedia m log) ∧ (fs.withMedia m log).rootFiles = fs.rootFiles := by
  have hfiles : (fs.withMedia m log).rootFiles = fs.rootFiles :=
    parseDirCluster_congr h.root hv.dvd 64
  have hmap : (fs.withMedia m log).bitmapCluster = fs.bitmapCluster :=
    bitmapEntry_congr h.root hv.dvd fs.bpc (Nat.dvd_zero 32)
  refine ⟨hv.of_kept hm hmap h.fat (fun c hc hmarked => ?_) (fun i h0 h1 => ?_) fun f hf => ?_, hfiles⟩
  · unfold Marked
    rw [hmap]
    exact h.marks c hc hmarked
  · rw [h.root i h1]
    rw [dirEnd_congr h.root] at h0
    exact hv.rootZero i h0 h1
  · rw [hfiles] at hf
    exact .inl hf

/-- A call that enters a file under a name that one entry holds. -/
theorem RootVolume.of_entered {fname : List Byte} (hlen : fname.length ≤ 15)
    (hname : ∀ c ∈ fname, c ≠ 0) (hfew : fs.rootFiles.length < 64) (data : Buf) {size : Nat}
    (hcode : (fs.exfatWriteFile fname data size).code = 0) :
    RootVolume (fs.exfatWriteFile fname data size).fs ∧ ∃ cc,
      (fs.exfatWriteFile fname data size).fs.rootFiles =
        fs.rootFiles ++ [enteredFile fname size cc] := by
  obtain ⟨hnlen, hsize, -, -⟩ := (hv.outcome fname data size).1.mp hcode
  obtain ⟨cc, m, log, hcc, hroom, hm, hfs, hroot, hbits, -, -, hfat⟩ := hv.written hnlen hsize hcode
  have hcount := hv.small.2
  have hbuf := fun i hi => @SectorVolume.rootBuf_eq fs hv.toSectorVolume i hi
  obtain ⟨-, hE, -, hend⟩ := dirEnd_cases fs.rootBuf (Nat.le_add_left fs.bpc 0) (Nat.dvd_zero 32)
  have hroom' : dirEnd fs.rootBuf fs.bpc fs.bpc 0 + 96 ≤ fs.bpc := hroom
  have hfiles : (fs.withMedia m log).rootFiles = fs.rootFiles ++ [enteredFile fname size cc] := by
    refine (parseDirCluster_congr hroot hv.dvd 64).trans ?_
    rw [hv.parse_put hfew hroom hname (by omega) (show cc < 2 ^ 32 by have := hcc.2.1; omega)
      (show size < 2 ^ 64 by have := hv.bpc; have := hv.few; omega), List.take_of_length_le hlen]
  have hmap : (fs.withMedia m log).bitmapCluster = fs.bitmapCluster := by
    have hroot0 : bitmapEntry fs.rootBuf fs.bpc fs.bpc 0 = fs.bitmapCluster :=
      bitmapEntry_congr hbuf hv.dvd fs.bpc (Nat.dvd_zero 32)
    have hbelow : ∀ i < dirEnd fs.rootBuf fs.bpc fs.bpc 0,
        (fs.withMedia m log).clusterBytes fs.boot.rootDirCluster i = fs.rootBuf i := fun i hi => by
      rw [hroot i (by omega), putEntrySet_below hname (by omega) (by omega),
        entryHead_out _ _ _ _ _ (.inl hi)]
    refine (bitmapEntry_below hbelow hE (hend (by omega)) fs.bpc (Nat.dvd_zero 32) (Nat.zero_le _)
      ?_).trans hroot0
    have := hv.bitmapIn.1
    rw [withMedia_bpc, hroot0]
    omega
  rw [hfs]
  refine ⟨hv.of_kept hm hmap hfat (fun c hc hmarked => ?_) (fun i h0 h1 => ?_) fun f hf => ?_, cc, hfiles⟩
  · unfold Marked
    rw [hmap, hv.marks_setBit hbits hc,
      show bit (fs.clusterBytes fs.bitmapCluster) c = true from hmarked, Bool.true_or]
  · rw [dirEnd_congr hroot] at h0
    have hbehind := Nat.le_trans (dirEnd_put hroom' hname hlen) h0
    rw [hroot i h1]
    refine putEntrySet_behind hname hlen hbehind ?_
    rw [hbuf i h1]
    refine hv.rootZero i ?_ h1
    rw [← dirEnd_congr hbuf]
    omega
  · rw [hfiles] at hf
    rcases List.mem_append.mp hf with hold | hnew
    · exact .inl hold
    · rw [List.mem_singleton.mp hnew]
      refine .inr ⟨hsize, hcc.inHeap, hv.ne_root hcc, hv.ne_bitmap hcc, ?_⟩
      unfold Marked
      change bit _ cc = true
      rw [hmap, hv.marks_setBit hbits hcc.2.1, decide_eq_true rfl, Bool.or_true]

end Volume

/-! ### Runs of calls -/

def DistinctNames (fs : Exfat) : Prop :=
  (fs.exfatListDir fs.boot.rootDirCluster 64).1.Pairwise fun f g => xstrcmp f.name g.name ≠ 0

structure WriteCall where
  fname : List Byte
  data : Buf
  size : Nat
  /-- The name is the bytes before the NUL. -/
  name : ∀ c ∈ fname, c ≠ 0

namespace WriteCall

variable (c : WriteCall) (fs : Exfat)

def run : WriteRun := fs.exfatWriteFile c.fname c.data c.size

/-- `exfat_find` and `exfat_read_file` return the data of the call. -/
def ReadsBack : Prop := ∀ buf, (c.run fs).fs.findAndRead fs.boot.rootDirCluster c.fname buf =
  some (0, blit buf 0 c.data c.size)

/-- If the call gets to enter a file, the name fits a name entry, no file of the root directory has
it, and there are fewer files than `exfat_find` looks at. -/
def Fresh : Prop := fs.Enters c.fname c.size → c.fname.length ≤ 15 ∧ fs.rootFiles.length < 64 ∧
  ∀ f ∈ fs.rootFiles, xstrcmp f.name c.fname ≠ 0

end WriteCall

theorem RootVolume.distinctNames_iff {fs : Exfat} (hv : RootVolume fs) :
    DistinctNames fs ↔ fs.rootFiles.Pairwise fun f g => xstrcmp f.name g.name ≠ 0 := by
  unfold DistinctNames
  rw [hv.list]

/-- What one call on a volume preserves, and that a call that returns 0 can be read back. -/
theorem RootVolume.fresh_step {fs : Exfat} (hv : RootVolume fs) (hd : DistinctNames fs)
    {c : WriteCall} (hfresh : c.Fresh fs) : RootVolume (c.run fs).fs ∧ DistinctNames (c.run fs).fs ∧
      ((c.run fs).code = 0 → c.ReadsBack fs) := by
  obtain ⟨hcode, hfails⟩ := hv.outcome c.fname c.data c.size
  have hold := hv.distinctNames_iff.mp hd
  by_cases h0 : (c.run fs).code = 0
  · have henters := hcode.mp h0
    obtain ⟨hlen, hfew, hnew⟩ := hfresh henters
    obtain ⟨hv', cc, hfiles⟩ := hv.of_entered hlen c.name hfew c.data h0
    refine ⟨hv', hv'.distinctNames_iff.mpr ?_, fun _ buf => ?_⟩
    · rw [hfiles, List.pairwise_append]
      refine ⟨hold, List.pairwise_singleton _ _, fun f hf g hg => ?_⟩
      rw [List.mem_singleton.mp hg]
      exact hnew f hf
    · have hnone : (fs.exfatFind fs.boot.rootDirCluster c.fname).1 = none := by
        unfold exfatFind
        rw [if_pos hv.ok]
        dsimp only
        rw [hv.list]
        exact List.find?_eq_none.mpr fun f hf h => hnew f hf (of_decide_eq_true h)
      have hpos : 0 < c.fname.length := List.length_pos_of_ne_nil fun h => henters.1 (by rw [h]; rfl)
      obtain ⟨fi, k, hentered⟩ := hv.round_trip hfew hpos hlen c.name hnone c.data henters.2.1 h0
      unfold findAndRead
      rw [show (c.run fs).fs.exfatFind fs.boot.rootDirCluster c.fname =
        (some fi, ((c.run fs).fs.exfatFind fs.boot.rootDirCluster c.fname).2) from
        Prod.ext hentered.found rfl]
      exact hentered.data buf
  · obtain ⟨m, log, hm, hfs, huntouched⟩ := hfails h0
    obtain ⟨hv', hfiles⟩ := hv.of_untouched hm huntouched
    rw [show (c.run fs).fs = fs.withMedia m log from hfs]
    refine ⟨hv', hv'.distinctNames_iff.mpr ?_, fun h => absurd h h0⟩
    rw [hfiles]
    exact hold

/-- A call that returns 0 on a name that the root directory has makes two files of that name. -/
theorem RootVolume.taken_twice {fs : Exfat} (hv : RootVolume fs) {c : WriteCall}
    (hlen : c.fname.length ≤ 15) (hfew : fs.rootFiles.length < 64) (hcode : (c.run fs).code = 0)
    {f : ExfatFileInfo} (hf : f ∈ fs.rootFiles) (hname : xstrcmp f.name c.fname = 0) :
    ¬ DistinctNames (c.run fs).fs := by
  obtain ⟨hv', cc, hfiles⟩ := hv.of_entered hlen c.name hfew c.data hcode
  intro hd
  have hnew := hv'.distinctNames_iff.mp hd
  rw [hfiles] at hnew
  exact (List.pairwise_append.mp hnew).2.2 f hf _ (List.mem_singleton_self _) hname

/-- The volume is one on which the driver is at home: its devices serve every command, and the
bitmap marks clusters under the numbers that the driver looks at. -/
def WriteCall.Sound (c : WriteCall) (fs : Exfat) : Prop := RootVolume fs ∧ c.Fresh fs

def SoundStep (fs fs' : Exfat) : Prop := ∃ c : WriteCall, c.Sound fs ∧ fs' = (c.run fs).fs

/-- In every run of such calls the names stay distinct, and after each that returns 0 its file is
found and reads back. -/
theorem names_distinct_of_sound {start fs : Exfat} (hd : DistinctNames start)
    (hrun : Relation.ReflTransGen SoundStep start fs) :
    DistinctNames fs ∧ ∀ c : WriteCall, c.Sound fs → (c.run fs).code = 0 →
      DistinctNames (c.run fs).fs ∧ c.ReadsBack fs := by
  have hinv : DistinctNames fs := by
    induction hrun with
    | refl => exact hd
    | tail _ hstep ih =>
      obtain ⟨c, ⟨hv, hfresh⟩, rfl⟩ := hstep
      exact (hv.fresh_step ih hfresh).2.1
  refine ⟨hinv, fun c ⟨hv, hfresh⟩ h0 => ?_⟩
  obtain ⟨-, hd', hread⟩ := hv.fresh_step hinv hfresh
  exact ⟨hd', hread h0⟩

def loginName : List Byte := [0x4C, 0x6F, 0x67, 0x69, 0x6E, 0x2E, 0x6C, 0x67, 0x69]

/-- The kernel writes `Login.lgi` at every login. -/
def writeLogin (user : Byte) : WriteCall where
  fname := loginName
  data := fun _ => user
  size := 1
  name := by decide

theorem oneFile_distinctNames : DistinctNames oneFile := by
  unfold DistinctNames
  decide +kernel

theorem writeLogin_fresh (user : Byte) : (writeLogin user).Fresh oneFile := fun _ => by
  have hfiles : oneFile.rootFiles = [⟨6, 3, [0x42], false⟩] := by decide +kernel
  rw [hfiles]
  refine ⟨show loginName.length ≤ 15 by decide, by decide, fun f hf => ?_⟩
  rw [List.mem_singleton.mp hf]
  exact (by decide : xstrcmp [0x42] loginName ≠ 0)

theorem names_distinct_oneFile :
    DistinctNames ((writeLogin 0x41).run oneFile).fs ∧ ∀ c : WriteCall,
      c.Sound ((writeLogin 0x41).run oneFile).fs →
      (c.run ((writeLogin 0x41).run oneFile).fs).code = 0 →
      DistinctNames (c.run ((writeLogin 0x41).run oneFile).fs).fs ∧
        c.ReadsBack ((writeLogin 0x41).run oneFile).fs :=
  names_distinct_of_sound oneFile_distinctNames
    (.single ⟨writeLogin 0x41, ⟨oneFile_fileVolume.toRootVolume, writeLogin_fresh 0x41⟩, rfl⟩)

/-- The file of the second login is entered behind the first one, which is read instead. -/
theorem second_login_lost : RootVolume oneFile ∧ DistinctNames oneFile ∧
    ((writeLogin 0x41).run oneFile).code = 0 ∧
    ((writeLogin 0x42).run ((writeLogin 0x41).run oneFile).fs).code = 0 ∧
    ¬ DistinctNames ((writeLogin 0x42).run ((writeLogin 0x41).run oneFile).fs).fs ∧
    ¬ (writeLogin 0x42).ReadsBack ((writeLogin 0x41).run oneFile).fs := by
  refine ⟨oneFile_fileVolume.toRootVolume, oneFile_distinctNames, by decide +kernel, by decide +kernel,
    ?_, fun h => ?_⟩
  · unfold DistinctNames
    decide +kernel
  · have hread : (((writeLogin 0x42).run ((writeLogin 0x41).run oneFile).fs).fs.findAndRead 5
        (writeLogin 0x42).fname fun _ => 0).map (fun r => r.2 0) = some 0x41 := by decide +kernel
    have hback := h fun _ => 0
    rw [show ((writeLogin 0x41).run oneFile).fs.boot.rootDirCluster = 5 by decide +kernel] at hback
    rw [hback] at hread
    exact absurd hread (by decide)

end Exfat

end WinDOS
