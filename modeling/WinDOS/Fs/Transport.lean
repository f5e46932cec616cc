import WinDOS.Fs.Exfat

/-!
# The transport during file access

No function of the driver changes the readiness of the NVMe controller or its queues.
-/

set_option autoImplicit false

namespace WinDOS

open Bytes

/-- Controller and queues are in the same state. -/
structure SameTransport (d d' : Disks) : Prop where
  ready : d'.ready = d.ready
  queues : d'.queues = d.queues

namespace SameTransport

theorem refl (d : Disks) : SameTransport d d := ⟨rfl, rfl⟩

theorem trans {a b c : Disks} (h : SameTransport a b) (h' : SameTransport b c) :
    SameTransport a c :=
  ⟨h'.ready.trans h.ready, h'.queues.trans h.queues⟩

end SameTransport

namespace Disks

theorem sameTransport_ideReadSector (ch dv : Nat) (d : Disks) (lba count : Nat) (buf : Buf)
    (off : Nat) : SameTransport d (d.ideReadSector ch dv lba count buf off).2.2 := by
  induction count generalizing d lba buf off with
  | zero => exact .refl d
  | succ count ih =>
    rw [ideReadSector]
    split
    · exact ⟨rfl, rfl⟩
    · exact ⟨(ih _ _ _ _).ready, (ih _ _ _ _).queues⟩

theorem sameTransport_ideWriteSector (ch dv : Nat) (d : Disks) (lba count : Nat) (buf : Buf) :
    SameTransport d (d.ideWriteSector ch dv lba count buf).2 := by
  induction count generalizing d lba buf with
  | zero => exact .refl d
  | succ count ih =>
    rw [ideWriteSector]
    split
    · exact ⟨rfl, rfl⟩
    · exact ⟨(ih _ _ _).ready, (ih _ _ _).queues⟩

theorem sameTransport_nvmeRead (d : Disks) (slba : Nat) : SameTransport d (d.nvmeRead slba).2 := by
  unfold nvmeRead
  split <;> exact ⟨rfl, rfl⟩

theorem sameTransport_nvmeWrite (d : Disks) (slba nlb : Nat) (buf : Buf) :
    SameTransport d (d.nvmeWrite slba nlb buf).2 := by
  unfold nvmeWrite
  split <;> exact ⟨rfl, rfl⟩

end Disks

namespace Exfat

theorem sameTransport_secRd (fs : Exfat) (lba cnt : Nat) (buf : Buf) (off : Nat) :
    SameTransport fs.disks (fs.secRd lba cnt buf off).2.2.disks := by
  unfold secRd
  dsimp only
  split
  · split
    · exact .refl _
    · have h := fs.disks.sameTransport_nvmeRead lba
      split <;> simp_all only
  · exact fs.disks.sameTransport_ideReadSector _ _ _ _ _ _

theorem sameTransport_secWr (fs : Exfat) (lba cnt : Nat) (buf : Buf) :
    SameTransport fs.disks (fs.secWr lba cnt buf).2.disks := by
  unfold secWr
  dsimp only
  split
  · split
    · exact .refl _
    · exact fs.disks.sameTransport_nvmeWrite lba cnt buf
  · exact fs.disks.sameTransport_ideWriteSector _ _ _ _ _

theorem sameTransport_readSectors (lba : Nat) (fs : Exfat) (n i : Nat) (buf : Buf) :
    SameTransport fs.disks (readSectors lba fs n i buf).2.2.disks := by
  induction n generalizing fs i buf with
  | zero => exact .refl _
  | succ n ih =>
    have h := fs.sameTransport_secRd (wrap32 (lba + i)) 1 buf (i * fs.bps)
    rw [readSectors]
    split
    · simp_all only
    · rename_i hread
      rw [hread] at h
      exact h.trans (ih _ _ _)

theorem sameTransport_readCluster (fs : Exfat) (cluster : Nat) (buf : Buf) :
    SameTransport fs.disks (fs.readCluster cluster buf).2.2.disks :=
  sameTransport_readSectors _ _ _ _ _

theorem sameTransport_nextCluster (fs : Exfat) (cluster : Nat) :
    SameTransport fs.disks (fs.nextCluster cluster).2.disks := by
  unfold nextCluster
  split
  · have h := fs.sameTransport_secRd (fs.fatLba cluster) 1 fs.stack 0
    split <;> simp_all only
  · exact .refl _

theorem sameTransport_listLoop (max fuel : Nat) (fs : Exfat) (cluster : Nat)
    (out : List ExfatFileInfo) :
    SameTransport fs.disks (listLoop max fuel fs cluster out).2.disks := by
  induction fuel generalizing fs cluster out with
  | zero => exact .refl _
  | succ fuel ih =>
    have h := fs.sameTransport_readCluster cluster fs.tmp
    rw [listLoop]
    split
    · split
      · simp_all only
      · rename_i tmp fs1 hread
        rw [hread] at h
        dsimp only
        split
        · exact h
        · exact h.trans ((sameTransport_nextCluster { fs1 with tmp := tmp } cluster).trans (ih _ _ _))
    · exact .refl _

theorem sameTransport_exfatListDir (fs : Exfat) (dirCluster max : Nat) :
    SameTransport fs.disks (fs.exfatListDir dirCluster max).2.disks := by
  unfold exfatListDir
  split
  · exact sameTransport_listLoop _ _ _ _ _
  · exact .refl _

theorem sameTransport_exfatFind (fs : Exfat) (dirCluster : Nat) (fname : List Byte) :
    SameTransport fs.disks (fs.exfatFind dirCluster fname).2.disks := by
  unfold exfatFind
  split
  · exact fs.sameTransport_exfatListDir dirCluster 64
  · exact .refl _

theorem sameTransport_readLoop {fuel : Nat} {fs : Exfat} {cluster remaining pos : Nat} {buf : Buf}
    {res : Int × Buf × Exfat} (hres : readLoop fuel fs cluster remaining pos buf = some res) :
    SameTransport fs.disks res.2.2.disks := by
  induction fuel generalizing fs cluster remaining pos buf with
  | zero =>
    rw [readLoop] at hres
    split at hres
    · obtain rfl := Option.some.inj hres
      exact .refl _
    · cases hres
  | succ fuel ih =>
    have h := fs.sameTransport_readCluster cluster fs.tmp
    rw [readLoop] at hres
    split at hres
    · obtain rfl := Option.some.inj hres
      exact .refl _
    · dsimp only at hres
      split at hres
      · obtain rfl := Option.some.inj hres
        exact .refl _
      · split at hres
        · obtain rfl := Option.some.inj hres
          simp_all only
        · rename_i tmp fs1 hread
          rw [hread] at h
          exact h.trans ((sameTransport_nextCluster { fs1 with tmp := tmp } cluster).trans (ih hres))

theorem sameTransport_writeData (lba0 : Nat) (data : Buf) (size : Nat) (fs : Exfat) (n k : Nat) :
    SameTransport fs.disks (writeData lba0 data size fs n k).2.2.disks := by
  induction n generalizing fs k with
  | zero => exact .refl _
  | succ n ih =>
    have hrd := fs.sameTransport_secRd (wrap32 (lba0 + k)) 1 fs.stack 0
    rw [writeData]
    dsimp only
    split
    · simp_all only
    · rename_i sec fs1 hread
      rw [hread] at hrd
      have hwr := fs1.sameTransport_secWr (wrap32 (lba0 + k)) 1
        (blit sec 0 (from_ data (k * 512)) (min 512 (size - k * 512)))
      split
      · rename_i hwrite
        rw [hwrite] at hwr
        exact hrd.trans hwr
      · rename_i hwrite
        rw [hwrite] at hwr
        exact (hrd.trans hwr).trans (ih _ _)

theorem sameTransport_writeEntry (fs : Exfat) (rd : Buf) (fname : List Byte)
    (size freeCluster : Nat) :
    SameTransport fs.disks (fs.writeEntry rd fname size freeCluster).2.disks := by
  unfold writeEntry
  dsimp only
  split
  · exact .refl _
  · have h := fs.sameTransport_secWr (fs.clusterToLba fs.boot.rootDirCluster)
      (if fs.bpc / 512 = 0 then 1 else fs.bpc / 512)
      (putEntrySet rd (dirEnd rd fs.bpc fs.bpc 0) fname size freeCluster)
    split <;> simp_all only

theorem sameTransport_writeChosen (fs : Exfat) (rd bm : Buf) (bmCluster freeCluster : Nat)
    (fname : List Byte) (data : Buf) (size : Nat) :
    SameTransport fs.disks
      (fs.writeChosen rd bm bmCluster freeCluster fname data size).fs.disks := by
  have hdata := sameTransport_writeData (fs.clusterToLba freeCluster) data size fs
    ((size + 511) / 512) 0
  unfold writeChosen
  split
  rename_i code lbas fs1 hd
  rw [hd] at hdata
  split
  · exact hdata
  · have hbm := fs1.sameTransport_secWr (fs1.clusterToLba bmCluster) fs1.spc (setBit bm freeCluster)
    dsimp only
    split
    · rename_i hw
      rw [hw] at hbm
      exact hdata.trans hbm
    · rename_i fs2 hw
      rw [hw] at hbm
      exact (hdata.trans hbm).trans (fs2.sameTransport_writeEntry _ _ _ _)

theorem sameTransport_exfatWriteFile (fs : Exfat) (fname : List Byte) (data : Buf) (size : Nat) :
    SameTransport fs.disks (fs.exfatWriteFile fname data size).fs.disks := by
  unfold exfatWriteFile
  split
  · split
    · exact .refl _
    · have hroot := fs.sameTransport_readCluster fs.boot.rootDirCluster fs.stack
      split
      · simp_all only [WriteRun.early]
      · rename_i rd fs1 hrd
        rw [hrd] at hroot
        dsimp only
        split
        · exact hroot
        · have hmap := fs1.sameTransport_readCluster (bitmapEntry rd fs1.bpc fs1.bpc 0) fs1.stack
          split
          · rename_i hbm
            rw [hbm] at hmap
            exact hroot.trans hmap
          · rename_i fs2 hbm
            rw [hbm] at hmap
            split
            · exact hroot.trans hmap
            · exact (hroot.trans hmap).trans (fs2.sameTransport_writeChosen _ _ _ _ _ _ _)
  · exact .refl _

end Exfat

end WinDOS
