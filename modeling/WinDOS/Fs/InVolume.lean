import WinDOS.Fs.Uses
import WinDOS.Fs.Mount
import WinDOS.Fs.RoundTrip

/-!
# Calls and the volume

The driver takes cluster numbers from the FAT, from entries and from its callers without a check
against `cluster_count`. A call stays in the volume exactly if the clusters it gets to do, and their
numbers are those of the cluster heap.
-/

set_option autoImplicit false

namespace WinDOS

open Bytes Trace

namespace Exfat

/-! ### The mounted volume -/

/-- The sector numbers of the FAT and of the cluster heap. -/
def InVolume (fs : Exfat) (s : Nat) : Prop :=
  fs.partLba + fs.boot.fatOffset ≤ s ∧ s < fs.partLba + fs.boot.fatOffset + fs.boot.fatLength ∨
  fs.partLba + fs.boot.clusterHeapOffset ≤ s ∧
    s < fs.partLba + fs.boot.clusterHeapOffset + fs.boot.clusterCount * fs.spc

inductive FileCall where
  | listDir (dirCluster max : Nat)
  | find (dirCluster : Nat) (fname : List Byte)
  | readFile (firstCluster size : Nat)
  | writeFile (fname : List Byte) (data : Buf) (size : Nat)

def unlogged (fs : Exfat) : Exfat := { fs with log := [] }

/-- The call asks the block layer for the sectors `e`: the first one and how many. -/
def FileCall.Requests (fs : Exfat) (e : Nat × Nat) : FileCall → Prop
  | listDir dirCluster max => e ∈ (fs.unlogged.exfatListDir dirCluster max).2.log
  | find dirCluster fname => e ∈ (fs.unlogged.exfatFind dirCluster fname).2.log
  | readFile firstCluster size =>
    fs.ok = true ∧ ∃ n, e ∈ (readRounds n fs.unlogged firstCluster size).log
  | writeFile fname data size => e ∈ (fs.unlogged.exfatWriteFile fname data size).fs.log

/-- What a call of `exfat_read_file` that ends has asked for is among its requests. -/
theorem readFile_requests {fs : Exfat} {firstCluster size : Nat} {buf : Buf} {res : Int × Buf × Exfat}
    (h : fs.unlogged.exfatReadFile firstCluster size buf = some res) {e : Nat × Nat}
    (he : e ∈ res.2.2.log) : FileCall.Requests fs e (.readFile firstCluster size) := by
  unfold exfatReadFile at h
  split at h
  · rename_i hok
    exact ⟨hok, size, by rwa [readLoop_rounds h]⟩
  · obtain rfl := Option.some.inj h
    cases he

/-- The sectors of the clusters that the call gets to, as the disk is before the call, and of
their entries in the FAT are in `S`. -/
def FileCall.In (S : Nat → Prop) (fs : Exfat) : FileCall → Prop
  | listDir dirCluster max => ListIn S fs max dirCluster fs.tmp 0
  | find dirCluster _ => ListIn S fs 64 dirCluster fs.tmp 0
  | readFile firstCluster size => ∀ k, Reached fs.nextOf fs.bpc firstCluster size k →
      ClusterIn S fs (fs.nextOf^[k] firstCluster) ∧ FatIn S fs (fs.nextOf^[k] firstCluster)
  | writeFile fname _ size => WriteIn S fs (nameLen fname) size

section Calls

variable {S R : Nat → Prop} {fs : Exfat}

end Calls

/-! ### The volume's sectors -/

/-- On a volume whose sector numbers the device takes, and whose FAT has an entry for every
cluster, the cluster numbers from 2 to `cluster_count + 1` are enough. -/
theorem inVolume_of_cluster {fs : Exfat} (htaken : ∀ s, fs.InVolume s → fs.addr (wrap32 s) = s)
    (hfat : (fs.boot.clusterCount + 1) * 4 / fs.bps < fs.boot.fatLength) {c : Nat} (h2 : 2 ≤ c)
    (hc : c ≤ fs.boot.clusterCount + 1) :
    ClusterIn (fun lba => fs.InVolume (fs.addr lba)) fs c ∧
      FatIn (fun lba => fs.InVolume (fs.addr lba)) fs c := by
  constructor
  · intro j hj
    have hlast : (c - 2 + 1) * fs.spc ≤ fs.boot.clusterCount * fs.spc :=
      Nat.mul_le_mul_right fs.spc (by omega)
    rw [Nat.add_mul, Nat.one_mul] at hlast
    have hin : fs.InVolume (fs.partLba + fs.boot.clusterHeapOffset + (c - 2) * fs.spc + j) :=
      .inr ⟨by omega, by omega⟩
    rwa [clusterToLba_of_two_le fs h2, htaken _ hin]
  · intro _
    have hentry : c * 4 / fs.bps ≤ (fs.boot.clusterCount + 1) * 4 / fs.bps :=
      Nat.div_le_div_right (by omega)
    have hin : fs.InVolume (fs.partLba + fs.boot.fatOffset + c * 4 / fs.bps) :=
      .inl ⟨Nat.le_add_right _ _, Nat.add_lt_add_left (Nat.lt_of_le_of_lt hentry hfat) _⟩
    rwa [fatLba, htaken _ hin]

end Exfat

end WinDOS
