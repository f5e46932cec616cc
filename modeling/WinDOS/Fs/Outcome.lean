import WinDOS.Fs.RoundTrip

/-!
# How a call of `exfat_write_file` ends

On a volume with the driver's own numbering, whose devices serve every command: when a call enters
its file, and what a call that fails leaves as it was.
-/

set_option autoImplicit false

namespace WinDOS

open Bytes

namespace Exfat

/-- On a device whose commands are all served the call enters the file. -/
def Enters (fs : Exfat) (fname : List Byte) (size : Nat) : Prop :=
  nameLen fname ≠ 0 ∧ size ≤ fs.bpc ∧ (∃ cc, fs.FirstClear cc) ∧ fs.Room

/-- The clusters that a call which fails leaves: the root directory and the FAT are as before,
and a bit of the bitmap that was set still is. -/
structure Untouched (fs gs : Exfat) : Prop where
  root : ∀ i < fs.bpc, gs.clusterBytes fs.boot.rootDirCluster i =
    fs.clusterBytes fs.boot.rootDirCluster i
  marks : ∀ c < fs.boot.clusterCount, fs.Marked c → bit (gs.clusterBytes fs.bitmapCluster) c = true
  fat : ∀ c, fs.InHeap c → gs.fatEntry c = fs.fatEntry c

section Volume

variable {fs : Exfat} (hv : RootVolume fs)
include hv

theorem RootVolume.marks_setBit {gs : Exfat} {cc : Nat}
    (hmap : ∀ i < fs.bpc, gs.clusterBytes fs.bitmapCluster i = setBit fs.bitmapBuf cc i) {c : Nat}
    (hc : c < fs.boot.clusterCount) : bit (gs.clusterBytes fs.bitmapCluster) c =
      (bit (fs.clusterBytes fs.bitmapCluster) c || decide (c = cc)) := by
  have hbpc := hv.bpc
  have hfits := hv.bitmapFits
  rw [bit_congr (hmap (c / 8) (by omega)), bit_setBit]
  congr 1
  refine bit_congr ?_
  unfold bitmapBuf
  rw [blit_in (by omega) (by omega), Nat.sub_zero]

/-- The data and the bitmap are written, the directory is not. -/
theorem RootVolume.untouched {cc size : Nat} {data : Buf} {m3 m4 : Media Dev}
    {log3 log4 : List (Nat × Nat)} (hcc : fs.FirstClear cc)
    (h3 : Media.Stores fs.cell (fs.withMedia m3 log3).cell ((size + 511) / 512)
      (fs.DataStored fs.dataStart) (fs.cellAddr cc)
      fun k => dataSector (fs.cell (fs.cellAddr cc k)) data size k)
    (h4 : Media.Stores (fs.withMedia m3 log3).cell (fs.withMedia m4 log4).cell fs.spc
      (fs.Stored (fs.bitmapStart size) fs.spc) (fs.putAddr fs.bitmapCluster)
      fun j i => setBit fs.bitmapBuf cc (j * 512 + i)) (hsize : size ≤ fs.bpc) :
    Untouched fs (fs.withMedia m4 log4) := by
  have hbpc := hv.bpc
  have hccIn := hcc.inHeap
  have hkept : ∀ a, (∀ j < fs.spc, a ≠ fs.cellAddr cc j) →
      (∀ j < fs.spc, a ≠ fs.cellAddr fs.bitmapCluster j) → ∀ i < 512,
      (fs.withMedia m4 log4).cell a i = fs.cell a i := fun a hdata hmap i hi =>
    (hv.cluster_outside hv.bitmapIn h4 hmap hi).trans
      (h3.outside a (fun j hj _ => hdata j (by omega)) i hi)
  refine ⟨fun i hi => ?_, fun c hc hmarked => ?_, fun c hc => ?_⟩
  · have hj : i / 512 < fs.spc := by omega
    exact hkept _ (hv.cells_apart hv.rootIn hccIn (hv.ne_root hcc).symm _ hj)
      (hv.cells_apart hv.rootIn hv.bitmapIn hv.apart _ hj) _ (by omega)
  · rw [hv.marks_setBit (fun i hi => hv.cluster_inside hv.bitmapIn h4 hi) hc,
      show bit (fs.clusterBytes fs.bitmapCluster) c = true from hmarked, Bool.true_or]
  · refine le_congr fun i h0 h1 => ?_
    exact hkept _ (hv.fatApart c hc _ hccIn) (hv.fatApart c hc _ hv.bitmapIn) _ (by omega)

theorem RootVolume.outcome (fname : List Byte) (data : Buf) (size : Nat) :
    ((fs.exfatWriteFile fname data size).code = 0 ↔ fs.Enters fname size) ∧
      ((fs.exfatWriteFile fname data size).code ≠ 0 →
        ∃ m log, m.faults = fs.disks.media.faults ∧
          (fs.exfatWriteFile fname data size).fs = fs.withMedia m log ∧
          Untouched fs (fs.withMedia m log)) := by
  have hsame : ∀ n log, Untouched fs (fs.after n fs.tmp log) := fun n log =>
    ⟨fun i _ => rfl, fun c _ h => h, fun c _ => rfl⟩
  by_cases hearly : nameLen fname = 0 ∨ size > fs.bpc
  · have hrun : fs.exfatWriteFile fname data size = .early (-2) fs := by
      unfold exfatWriteFile
      rw [if_pos hv.ok, if_pos hearly]
    rw [hrun]
    refine ⟨iff_of_false (show ¬ (-2 : Int) = 0 by decide) fun h => ?_, fun _ =>
      ⟨fs.disks.media, fs.log, rfl, rfl, hsame fs.disks.media.issued fs.log⟩⟩
    exact hearly.elim h.1 (Nat.not_lt.mpr h.2.1)
  have hname : nameLen fname ≠ 0 := fun h => hearly (.inl h)
  have hsize : size ≤ fs.bpc := by omega
  rcases hv.toSectorVolume.searched data (hv.searches hname hsize) with
    ⟨hall, n, log, hrun⟩ | ⟨cc, log, hcc, hrun⟩
  · rw [hrun]
    refine ⟨iff_of_false (show ¬ (-5 : Int) = 0 by decide) ?_, fun _ =>
      ⟨{ fs.disks.media with issued := n }, log, rfl, rfl, hsame n log⟩⟩
    rintro ⟨-, -, ⟨cc, hcc⟩, -⟩
    have := hall cc hcc.1 hcc.2.1
    rw [hcc.2.2.1] at this
    cases this
  obtain ⟨m3, log3, h3, hstop⟩ := hv.writeVolume.chosen_outcome log cc fname data hsize hrun
  rcases hstop with ⟨h, -⟩ | ⟨-, m4, log4, h4, hm4, hstop⟩
  · exact absurd (fun j _ => hv.served _) h
  rcases hstop with ⟨hlate, hcode, hfs⟩ | ⟨hdone, hroom, m5, log5, h5, hcode, -, -⟩
  · have hroom : ¬ fs.Room := fun hroom => hlate ⟨hv.done _, hroom⟩
    exact ⟨iff_of_false hcode fun h => hroom h.2.2.2, fun _ =>
      ⟨m4, log4, hm4, hfs, hv.untouched hcc h3 h4 hsize⟩⟩
  · have hzero := hcode.mpr (hv.done _)
    exact ⟨iff_of_true hzero ⟨hname, hsize, ⟨cc, hcc⟩, hroom⟩, fun h => absurd hzero h⟩

end Volume

end Exfat

end WinDOS
