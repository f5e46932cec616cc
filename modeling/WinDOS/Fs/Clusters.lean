import WinDOS.Fs.Store

/-!
# The clusters that a run of calls hands out

A call of `exfat_write_file` that gets past its search takes the cluster it found, whether it
enters a file there or fails later. Over a run no cluster is taken twice, none was in use before,
and the bitmap at the end has these marks more than at the start.
-/

set_option autoImplicit false

namespace WinDOS

open Bytes

namespace Exfat

theorem writeChosen_freeCluster (fs : Exfat) (rd bm : Buf) (bmCluster cc : Nat)
    (fname : List Byte) (data : Buf) (size : Nat) :
    (fs.writeChosen rd bm bmCluster cc fname data size).freeCluster = cc := by
  unfold writeChosen
  dsimp only
  split
  · rfl
  · split <;> rfl

section Volume

variable {fs : Exfat} (hv : RootVolume fs)
include hv

/-- A new entry set goes behind the entry of the bitmap. -/
theorem RootVolume.bitmapCluster_entered {m : Media Dev} {log : List (Nat × Nat)}
    {fname : List Byte} {size cc : Nat} (hlen : fname.length ≤ 255) (hname : ∀ c ∈ fname, c ≠ 0)
    (hroom : fs.Room)
    (hroot : ∀ i < fs.bpc, (fs.withMedia m log).clusterBytes fs.boot.rootDirCluster i =
      putEntrySet fs.rootBuf (dirEnd fs.rootBuf fs.bpc fs.bpc 0) fname size cc i) :
    (fs.withMedia m log).bitmapCluster = fs.bitmapCluster := by
  have hbuf := fun i hi => @SectorVolume.rootBuf_eq fs hv.toSectorVolume i hi
  obtain ⟨-, hE, -, hend⟩ := dirEnd_cases fs.rootBuf (Nat.le_add_left fs.bpc 0) (Nat.dvd_zero 32)
  have hroom' : dirEnd fs.rootBuf fs.bpc fs.bpc 0 + 96 ≤ fs.bpc := hroom
  have hroot0 : bitmapEntry fs.rootBuf fs.bpc fs.bpc 0 = fs.bitmapCluster :=
    bitmapEntry_congr hbuf hv.dvd fs.bpc (Nat.dvd_zero 32)
  have hbelow : ∀ i < dirEnd fs.rootBuf fs.bpc fs.bpc 0,
      (fs.withMedia m log).clusterBytes fs.boot.rootDirCluster i = fs.rootBuf i := fun i hi => by
    rw [hroot i (by omega), putEntrySet_below hname hlen (by omega),
      entryHead_out _ _ _ _ _ (.inl hi)]
  refine (bitmapEntry_below hbelow hE (hend (by omega)) fs.bpc (Nat.dvd_zero 32) (Nat.zero_le _)
    ?_).trans hroot0
  have := hv.bitmapIn.1
  rw [withMedia_bpc, hroot0]
  omega

/-- What one call does to the bitmap: nothing, or it marks the first clear cluster. -/
theorem RootVolume.bitmap_step {c : WriteCall} (hlen : c.fname.length ≤ 255) :
    (c.run fs).fs.boot = fs.boot ∧ (c.run fs).fs.bitmapCluster = fs.bitmapCluster ∧
      ((c.run fs).freeCluster = 0 ∧
          (∀ k < fs.boot.clusterCount, (c.run fs).fs.Marked k ↔ fs.Marked k) ∨
        fs.FirstClear (c.run fs).freeCluster ∧ ∀ k < fs.boot.clusterCount,
          (c.run fs).fs.Marked k ↔ fs.Marked k ∨ k = (c.run fs).freeCluster) := by
  have hbpc := hv.bpc
  by_cases hearly : nameLen c.fname = 0 ∨ c.size > fs.bpc
  · have hrun : c.run fs = .early (-2) fs := by
      unfold WriteCall.run exfatWriteFile
      rw [if_pos hv.ok, if_pos hearly]
    rw [hrun]
    exact ⟨rfl, rfl, .inl ⟨rfl, fun _ _ => .rfl⟩⟩
  have hsize : c.size ≤ fs.bpc := by omega
  rcases hv.toSectorVolume.searched c.data (hv.searches (fun h => hearly (.inl h)) hsize) with
    ⟨-, n, log, hrun⟩ | ⟨cc, log, hcc, hrun⟩
  · rw [show c.run fs = _ from hrun]
    exact ⟨rfl, rfl, .inl ⟨rfl, fun _ _ => .rfl⟩⟩
  have hfree : (c.run fs).freeCluster = cc := by
    rw [show c.run fs = _ from hrun]
    exact writeChosen_freeCluster ..
  obtain ⟨m3, log3, h3, hstop⟩ := hv.writeVolume.chosen_outcome log cc c.fname c.data hsize hrun
  rcases hstop with ⟨h, -⟩ | ⟨-, m4, log4, h4, hm4, hstop⟩
  · exact absurd (fun j _ => hv.served _) h
  -- the bitmap is written before the directory
  have hmarks : ∀ {m : Media Dev} {log : List (Nat × Nat)},
      (fs.withMedia m log).bitmapCluster = fs.bitmapCluster →
      (∀ i < fs.bpc, (fs.withMedia m log).clusterBytes fs.bitmapCluster i =
        setBit fs.bitmapBuf cc i) →
      ∀ k < fs.boot.clusterCount, (fs.withMedia m log).Marked k ↔ fs.Marked k ∨ k = cc := by
    intro m log hmap hbits k hk
    unfold Marked
    rw [hmap, hv.marks_setBit hbits hk, Bool.or_eq_true, decide_eq_true_iff]
  rcases hstop with ⟨-, -, hfs⟩ | ⟨-, hroom, m5, log5, h5, -, -, hfs⟩
  · have hun := hv.untouched hcc h3 h4 hsize
    have hmap : (fs.withMedia m4 log4).bitmapCluster = fs.bitmapCluster :=
      bitmapEntry_congr hun.root hv.dvd fs.bpc (Nat.dvd_zero 32)
    rw [hfree, show (c.run fs).fs = fs.withMedia m4 log4 from hfs]
    exact ⟨rfl, hmap, .inr ⟨hcc, hmarks hmap fun i hi => hv.cluster_inside hv.bitmapIn h4 hi⟩⟩
  · have hmap := hv.bitmapCluster_entered hlen c.name hroom fun i hi =>
      hv.cluster_inside hv.rootIn h5 hi
    rw [hfree, show (c.run fs).fs = fs.withMedia m5 log5 from hfs]
    refine ⟨rfl, hmap, .inr ⟨hcc, hmarks hmap fun i hi => ?_⟩⟩
    have hj : i / 512 < fs.spc := by omega
    exact (hv.cluster_outside hv.rootIn h5 (hv.cells_apart hv.bitmapIn hv.rootIn hv.apart.symm _ hj)
      (by omega)).trans (hv.cluster_inside hv.bitmapIn h4 hi)

end Volume

/-- The clusters that the calls of a run take, in their order. -/
def taken : Exfat → List WriteCall → List Nat
  | _, [] => []
  | fs, c :: cs =>
    (if (c.run fs).freeCluster = 0 then [] else [(c.run fs).freeCluster]) ++ taken (c.run fs).fs cs

/-- Over a run no cluster is taken twice or was in use before, and the clusters in use at its end
are those of its start and the ones taken. -/
theorem clusters_taken_once {start : Exfat} (hv : RootVolume start) {cs : List WriteCall}
    (hlen : ∀ c ∈ cs, c.fname.length ≤ 15) (hfew : start.rootFiles.length + cs.length ≤ 64) :
    (taken start cs).Nodup ∧
      (∀ k ∈ taken start cs, 2 ≤ k ∧ k < start.boot.clusterCount ∧ ¬ start.Marked k) ∧
      ∀ k < start.boot.clusterCount,
        (start.afterCalls cs).Marked k ↔ start.Marked k ∨ k ∈ taken start cs := by
  induction cs generalizing start with
  | nil =>
    refine ⟨List.nodup_nil, fun _ h => absurd h List.not_mem_nil, fun k _ => ?_⟩
    exact (or_iff_left List.not_mem_nil).symm
  | cons c cs ih =>
    rw [List.length_cons] at hfew
    have hc := hlen c List.mem_cons_self
    obtain ⟨hv', hfiles, -⟩ := hv.store_step hc (by omega)
    obtain ⟨hboot, -, hstep⟩ := hv.bitmap_step (c := c) (by omega)
    obtain ⟨hnodup, hclear, hmarks⟩ := ih hv' (fun d hd => hlen d (List.mem_cons_of_mem c hd))
      (by omega)
    rw [hboot] at hclear hmarks
    have hafter : start.afterCalls (c :: cs) = (c.run start).fs.afterCalls cs := rfl
    rw [hafter, taken]
    rcases hstep with ⟨hnone, hsame⟩ | ⟨hcc, hnew⟩
    · rw [if_pos hnone, List.nil_append]
      refine ⟨hnodup, fun k hk => ?_, fun k hk => (hmarks k hk).trans (or_congr_left (hsame k hk))⟩
      obtain ⟨h2, hlt, hno⟩ := hclear k hk
      exact ⟨h2, hlt, fun hm => hno ((hsame k hlt).mpr hm)⟩
    · have hne : (c.run start).freeCluster ≠ 0 := fun h => by
        have := hcc.1
        omega
      rw [if_neg hne, List.singleton_append]
      refine ⟨List.nodup_cons.mpr ⟨fun hmem => ?_, hnodup⟩, fun k hk => ?_, fun k hk => ?_⟩
      · obtain ⟨-, hlt, hno⟩ := hclear _ hmem
        exact hno ((hnew _ hlt).mpr (.inr rfl))
      · rcases List.mem_cons.mp hk with rfl | hk
        · exact ⟨hcc.1, hcc.2.1, hv.unmarked hcc⟩
        · obtain ⟨h2, hlt, hno⟩ := hclear k hk
          exact ⟨h2, hlt, fun hm => hno ((hnew k hlt).mpr (.inl hm))⟩
      · rw [hmarks k hk, hnew k hk, List.mem_cons, or_assoc]

theorem clusters_taken_once_oneFile :
    (taken oneFile [writeLogin 0x41, writeLogin 0x42]).Nodup ∧
      (∀ k ∈ taken oneFile [writeLogin 0x41, writeLogin 0x42],
        2 ≤ k ∧ k < oneFile.boot.clusterCount ∧ ¬ oneFile.Marked k) ∧
      ∀ k < oneFile.boot.clusterCount,
        (oneFile.afterCalls [writeLogin 0x41, writeLogin 0x42]).Marked k ↔
          oneFile.Marked k ∨ k ∈ taken oneFile [writeLogin 0x41, writeLogin 0x42] :=
  have hfew : oneFile.rootFiles.length + [writeLogin 0x41, writeLogin 0x42].length ≤ 64 := by
    decide +kernel
  clusters_taken_once oneFile_fileVolume.toRootVolume (by decide) hfew

end Exfat

end WinDOS
