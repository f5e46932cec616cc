import WinDOS.Fs.InVolume
import WinDOS.Fs.RoundTrip

/-!
# One volume over two back ends

The same volume over NVMe and over ATA. The back ends differ in two points: over NVMe the block
layer refuses requests for more than 8 sectors, and over ATA a sector number is cut to 28 bits.
-/

set_option autoImplicit false

namespace WinDOS

open Bytes

namespace Exfat

/-! ### Twins -/

def SameDisk (fs gs : Exfat) : Prop := ∀ a, ∀ i < 512, gs.cell a i = fs.cell a i

/-- The same driver with the same volume on an NVMe disk and on an ATA disk that do not fail. -/
structure Twin (fs gs : Exfat) : Prop where
  nvme : fs.disks.ready = true
  ata : ¬ gs.disks.ready = true
  ok : gs.ok = fs.ok
  boot : gs.boot = fs.boot
  bps : gs.bps = fs.bps
  spc : gs.spc = fs.spc
  bpc : gs.bpc = fs.bpc
  partLba : gs.partLba = fs.partLba
  tmp : gs.tmp = fs.tmp
  stack : gs.stack = fs.stack
  disk : SameDisk fs gs
  faultless : fs.Faultless
  faultless' : gs.Faultless

def Lba28 (lba : Nat) : Prop := lba < 2 ^ 28

section Twin

variable {fs gs : Exfat} (h : Twin fs gs)
include h

theorem Twin.after (m m' : Dev → Nat) (tmp : Buf) (log log' : List (Nat × Nat)) :
    Twin (fs.after m tmp log) (gs.after m' tmp log') :=
  ⟨h.nvme, h.ata, h.ok, h.boot, h.bps, h.spc, h.bpc, h.partLba, rfl, h.stack, h.disk, h.faultless,
    h.faultless'⟩

theorem Twin.addr_eq {lba : Nat} (hlba : Lba28 lba) : fs.addr lba = lba ∧ gs.addr lba = lba := by
  rw [addr_nvme h.nvme, addr_ata h.ata]
  exact ⟨rfl, Nat.mod_eq_of_lt hlba⟩

theorem Twin.blit_sector {lba : Nat} (hlba : Lba28 lba) (buf : Buf) (off : Nat) :
    blit buf off (gs.sector lba) 512 = blit buf off (fs.sector lba) 512 := by
  obtain ⟨hfs, hgs⟩ := h.addr_eq hlba
  refine blit_congr fun j hj => ?_
  unfold sector
  rw [hfs, hgs]
  exact h.disk lba j hj

theorem Twin.clusterToLba (c : Nat) : gs.clusterToLba c = fs.clusterToLba c := by
  unfold Exfat.clusterToLba
  rw [h.partLba, h.boot, h.spc]

theorem Twin.fatLba (c : Nat) : gs.fatLba c = fs.fatLba c := by
  unfold Exfat.fatLba
  rw [h.partLba, h.boot, h.bps]

theorem Twin.clusterInto {c : Nat} (hc : ClusterIn Lba28 fs c) (buf : Buf) :
    gs.clusterInto c buf = fs.clusterInto c buf := by
  have hsectors : ∀ lba n i buf, (∀ j < n, Lba28 (wrap32 (lba + (i + j)))) →
      gs.sectorsInto lba n i buf = fs.sectorsInto lba n i buf := by
    intro lba n
    induction n with
    | zero => exact fun _ _ _ => rfl
    | succ n ih =>
      intro i buf hall
      have hfirst : Lba28 (wrap32 (lba + i)) := hall 0 (by omega)
      rw [sectorsInto, sectorsInto, h.bps, h.blit_sector hfirst, ih]
      intro j hj
      rw [show i + 1 + j = i + (j + 1) by omega]
      exact hall (j + 1) (by omega)
  unfold Exfat.clusterInto
  rw [h.clusterToLba, h.spc]
  refine hsectors _ _ 0 buf fun j hj => ?_
  rw [Nat.zero_add]
  exact hc j hj

theorem Twin.nextOf {c : Nat} (hc : FatIn Lba28 fs c) : gs.nextOf c = fs.nextOf c := by
  unfold Exfat.nextOf
  rw [h.boot, h.stack, h.bps, h.fatLba]
  by_cases hfat : fs.boot.fatLength > 0
  · rw [if_pos hfat, if_pos hfat, h.blit_sector (hc hfat)]
  · rw [if_neg hfat, if_neg hfat]

end Twin

/-! ### Reading -/

section Read

variable {fs gs : Exfat}

theorem Faultless.readCluster_eq (h : fs.Faultless) (c : Nat) (buf : Buf) :
    ∃ m log, fs.readCluster c buf = (true, fs.clusterInto c buf, fs.after m fs.tmp log) := by
  obtain ⟨ok, buf', m, log, hrun, hinto, hok, -⟩ := @readCluster_asks Lba28 fs c buf
  obtain rfl := hok h
  obtain rfl := hinto rfl
  exact ⟨m, log, hrun⟩

theorem Faultless.nextCluster_eq (h : fs.Faultless) (c : Nat) :
    ∃ m log, fs.nextCluster c = (fs.nextOf c, fs.after m fs.tmp log) := by
  obtain ⟨v, m, log, hrun, hv, -⟩ := @nextCluster_asks Lba28 fs c
  obtain rfl : v = fs.nextOf c := hv.resolve_right fun hfail => hfail.2 h
  exact ⟨m, log, hrun⟩

theorem Twin.unchanged (h : Twin fs gs) : ∃ m m' tmp log log',
    fs = fs.after m tmp log ∧ gs = gs.after m' tmp log' := by
  refine ⟨fs.bump 0, gs.bump 0, fs.tmp, fs.log, gs.log, fs.after_self.symm, ?_⟩
  rw [← h.tmp, after_self]

theorem Twin.round (h : Twin fs gs) {c : Nat} (hc : ClusterIn Lba28 fs c) :
    ∃ tmp m log n log', fs.readCluster c fs.tmp = (true, tmp, fs.after m fs.tmp log) ∧
      gs.readCluster c gs.tmp = (true, tmp, gs.after n gs.tmp log') ∧
      tmp = fs.clusterInto c fs.tmp ∧ ∃ m1 log1 n1 log1',
        (fs.after m tmp log).nextCluster c = (fs.nextOf c, fs.after m1 tmp log1) ∧
        (gs.after n tmp log').nextCluster c = (gs.nextOf c, gs.after n1 tmp log1') := by
  obtain ⟨m, log, hread⟩ := h.faultless.readCluster_eq c fs.tmp
  obtain ⟨n, log', hread'⟩ := h.faultless'.readCluster_eq c gs.tmp
  obtain ⟨m1, log1, hnext⟩ := @Faultless.nextCluster_eq
    (fs.after m (fs.clusterInto c fs.tmp) log) h.faultless c
  obtain ⟨n1, log1', hnext'⟩ := @Faultless.nextCluster_eq
    (gs.after n (fs.clusterInto c fs.tmp) log') h.faultless' c
  refine ⟨_, m, log, n, log', hread, ?_, rfl, m1, log1, n1, log1', hnext, hnext'⟩
  rw [hread', h.clusterInto hc, h.tmp]

theorem Twin.listLoop (h : Twin fs gs) {max fuel c : Nat} {out : List ExfatFileInfo}
    (hin : ListIn Lba28 fs max c fs.tmp out.length) :
    ∃ res m m' tmp log log', Exfat.listLoop max fuel fs c out = (res, fs.after m tmp log) ∧
      Exfat.listLoop max fuel gs c out = (res, gs.after m' tmp log') := by
  have hself : ∀ {fs gs : Exfat}, Twin fs gs → ∀ res : List ExfatFileInfo,
      ∃ res' m m' tmp log log', (res, fs) = (res', fs.after m tmp log) ∧
        (res, gs) = (res', gs.after m' tmp log') := fun h res => by
    obtain ⟨m, m', tmp, log, log', hfs, hgs⟩ := h.unchanged
    exact ⟨res, m, m', tmp, log, log', congrArg _ hfs, congrArg _ hgs⟩
  induction fuel generalizing fs gs c out with
  | zero => exact hself h out
  | succ fuel ih =>
    by_cases hc : 2 ≤ c ∧ c ≠ CHAIN_END
    · obtain ⟨hcluster, hrest⟩ := (listIn_iff hc.1 hc.2 fs.tmp out.length).mp hin
      obtain ⟨tmp, m, log, n, log', hread, hread', rfl, m1, log1, n1, log1', hnext, hnext'⟩ :=
        h.round hcluster
      rw [listLoop_succ hc hread hnext, listLoop_succ hc hread' hnext', h.bpc]
      by_cases hnone : (parseDirCluster (fs.clusterInto c fs.tmp) fs.bpc
          (max - out.length)).length = 0
      · rw [if_pos hnone, if_pos hnone]
        exact ⟨out, m, n, _, log, log', rfl, rfl⟩
      · obtain ⟨hfat, hlist⟩ := hrest hnone
        rw [if_neg hnone, if_neg hnone, h.nextOf hfat]
        refine ih (h.after m1 n1 _ log1 log1') ?_
        rw [after_listIn, List.length_append]
        exact hlist
    · rw [Exfat.listLoop, Exfat.listLoop, if_neg hc, if_neg hc]
      exact hself h out

theorem readLoop_succ {c remaining : Nat} (h0 : remaining ≠ 0) (hc : 2 ≤ c ∧ c ≠ CHAIN_END)
    {m m' : Dev → Nat} {tmp : Buf} {log log' : List (Nat × Nat)} {v : Nat}
    (hread : fs.readCluster c fs.tmp = (true, tmp, fs.after m fs.tmp log))
    (hnext : (fs.after m tmp log).nextCluster c = (v, fs.after m' tmp log')) (fuel pos : Nat)
    (buf : Buf) : readLoop (fuel + 1) fs c remaining pos buf =
      readLoop fuel (fs.after m' tmp log') v (remaining - min remaining fs.bpc)
        (pos + min remaining fs.bpc) (blit buf pos tmp (min remaining fs.bpc)) := by
  have hchunk : (if remaining < fs.bpc then remaining else fs.bpc) = min remaining fs.bpc := by
    split <;> omega
  rw [readLoop, if_neg h0]
  dsimp only
  rw [if_neg (by omega), hread]
  change readLoop fuel ((fs.after m tmp log).nextCluster c).2 ((fs.after m tmp log).nextCluster c).1
    (remaining - if remaining < fs.bpc then remaining else fs.bpc)
    (pos + if remaining < fs.bpc then remaining else fs.bpc)
    (blit buf pos tmp (if remaining < fs.bpc then remaining else fs.bpc)) = _
  rw [hnext, hchunk]

/-- Reading a file whose sectors have numbers of 28 bits: neither call ends, or both end alike. -/
theorem Twin.readLoop (h : Twin fs gs) {fuel c remaining : Nat}
    (hin : RoundsIn Lba28 fs fuel c remaining) (pos : Nat) (buf : Buf) :
    (Exfat.readLoop fuel fs c remaining pos buf = none ∧
      Exfat.readLoop fuel gs c remaining pos buf = none) ∨
    ∃ code buf' m m' tmp log log',
      Exfat.readLoop fuel fs c remaining pos buf = some (code, buf', fs.after m tmp log) ∧
      Exfat.readLoop fuel gs c remaining pos buf = some (code, buf', gs.after m' tmp log') := by
  have hself : ∀ {fs gs : Exfat}, Twin fs gs → ∀ (code : Int) (buf : Buf),
      ∃ code' buf' m m' tmp log log', some (code, buf, fs) = some (code', buf', fs.after m tmp log) ∧
        some (code, buf, gs) = some (code', buf', gs.after m' tmp log') := fun h code buf => by
    obtain ⟨m, m', tmp, log, log', hfs, hgs⟩ := h.unchanged
    exact ⟨code, buf, m, m', tmp, log, log', congrArg (fun s => some (code, buf, s)) hfs,
      congrArg (fun s => some (code, buf, s)) hgs⟩
  induction fuel generalizing fs gs c remaining pos buf with
  | zero =>
    rw [Exfat.readLoop, Exfat.readLoop]
    by_cases h0 : remaining = 0
    · rw [if_pos h0, if_pos h0]
      exact .inr (hself h 0 buf)
    · rw [if_neg h0, if_neg h0]
      exact .inl ⟨rfl, rfl⟩
  | succ fuel ih =>
    by_cases h0 : remaining = 0
    · rw [Exfat.readLoop, Exfat.readLoop, if_pos h0, if_pos h0]
      exact .inr (hself h 0 buf)
    by_cases hbad : c < 2 ∨ c = CHAIN_END
    · rw [Exfat.readLoop, Exfat.readLoop, if_neg h0, if_neg h0]
      dsimp only
      rw [if_pos hbad, if_pos hbad]
      exact .inr (hself h (-1) buf)
    have hc : 2 ≤ c ∧ c ≠ CHAIN_END := ⟨by omega, fun h => hbad (.inr h)⟩
    obtain ⟨⟨hcluster, hfat⟩, hrest⟩ := (roundsAll_succ h0 hc).mp hin
    obtain ⟨tmp, m, log, n, log', hread, hread', rfl, m1, log1, n1, log1', hnext, hnext'⟩ :=
      h.round hcluster
    rw [readLoop_succ h0 hc hread hnext, readLoop_succ h0 hc hread' hnext', h.bpc, h.nextOf hfat]
    exact ih (h.after m1 n1 _ log1 log1') hrest _ _

end Read

/-! ### Writing -/

/-- The writes of a call are of at most 8 sectors: that of the bitmap, and that of the directory
if it has room. -/
def CountsFit (fs : Exfat) (len size : Nat) : Prop :=
  len ≠ 0 ∧ size ≤ fs.bpc →
    let rd := fs.clusterInto fs.boot.rootDirCluster fs.stack
    let bmCluster := bitmapEntry rd fs.bpc fs.bpc 0
    bmCluster ≠ 0 →
      searchBitmap (fs.clusterInto bmCluster fs.stack) (fs.boot.clusterCount - 2) 2 ≠ 0 →
        fs.spc ≤ 8 ∧ (dirEnd rd fs.bpc fs.bpc 0 + 96 ≤ fs.bpc → fs.dirSectors ≤ 8)

section Write

variable {fs gs : Exfat}

theorem Faultless.done (h : fs.Faultless) {cnt : Nat} (hpass : fs.Passes cnt) (n : Nat) :
    fs.Done n cnt := by
  by_cases hr : fs.disks.ready = true
  · rw [done_nvme hr]
    exact ⟨Nat.not_lt.mp fun h8 => hpass ⟨hr, h8⟩, h n⟩
  · rw [done_ata hr]
    exact fun i _ => h (n + i)

theorem Twin.withMedia (h : Twin fs gs) {m m' : Media Dev} {log log' : List (Nat × Nat)}
    (hm : m.faults = fs.disks.media.faults) (hm' : m'.faults = gs.disks.media.faults)
    (hdisk : SameDisk (fs.withMedia m log) (gs.withMedia m' log')) :
    Twin (fs.withMedia m log) (gs.withMedia m' log') :=
  ⟨h.nvme, h.ata, h.ok, h.boot, h.bps, h.spc, h.bpc, h.partLba, h.tmp, h.stack, hdisk,
    (withMedia_faultless hm).mpr h.faultless, (withMedia_faultless hm').mpr h.faultless'⟩

/-- A write that the block layer does not refuse leaves the same on both disks. -/
theorem Twin.secWr (h : Twin fs gs) {lba cnt : Nat} (hlba : ∀ j < cnt, Lba28 (lba + j))
    (hcnt : cnt ≤ 8) (buf : Buf) :
    ∃ m m' log log', Exfat.secWr fs lba cnt buf = (true, fs.withMedia m log) ∧
      Exfat.secWr gs lba cnt buf = (true, gs.withMedia m' log') ∧
      Twin (fs.withMedia m log) (gs.withMedia m' log') := by
  have hpass : fs.Passes cnt := fun h8 => absurd h8.2 (by omega)
  have hpass' : gs.Passes cnt := fun h8 => absurd h8.2 (by omega)
  obtain ⟨ok, m, log, hrun, hm, hok, -, hst⟩ := fs.secWr_effect lba buf (show cnt ≤ 2 ^ 28 by omega)
  obtain ⟨ok', m', log', hrun', hm', hok', -, hst'⟩ :=
    gs.secWr_effect lba buf (show cnt ≤ 2 ^ 28 by omega)
  have hdone := h.faultless.done hpass fs.issued
  have hdone' := h.faultless'.done hpass' gs.issued
  obtain rfl := hok.mpr hdone
  obtain rfl := hok'.mpr hdone'
  refine ⟨m, m', log, log', hrun, hrun', h.withMedia hm hm' fun a i hi => ?_⟩
  have hplace : ∀ j < cnt, fs.addr (lba + j) = lba + j ∧ gs.addr (lba + j) = lba + j := fun j hj =>
    h.addr_eq (hlba j hj)
  by_cases hin : ∃ j < cnt, a = lba + j
  · obtain ⟨j, hj, rfl⟩ := hin
    have hnew := hst.inside j hj (hdone.stored hj) i hi
    have hnew' := hst'.inside j hj (hdone'.stored hj) i hi
    rw [(hplace j hj).1] at hnew
    rw [(hplace j hj).2] at hnew'
    rw [hnew, hnew']
  · rw [hst.outside a (fun j hj _ heq => hin ⟨j, hj, heq.trans (hplace j hj).1⟩) i hi,
      hst'.outside a (fun j hj _ heq => hin ⟨j, hj, heq.trans (hplace j hj).2⟩) i hi]
    exact h.disk a i hi

/-- A write of more than 8 sectors is refused over NVMe and served over ATA. -/
theorem Twin.secWr_wide (h : Twin fs gs) {cnt : Nat} (hcnt : ¬ cnt ≤ 8) (lba : Nat) (buf : Buf) :
    ∃ m m' log log', Exfat.secWr fs lba cnt buf = (false, fs.withMedia m log) ∧
      Exfat.secWr gs lba cnt buf = (true, gs.withMedia m' log') := by
  obtain ⟨ok, m, hrun, -, hpass, -⟩ := @secWr_asks Lba28 fs lba cnt buf
  obtain ⟨ok', m', hrun', -, -, hok', -⟩ := @secWr_asks Lba28 gs lba cnt buf
  obtain rfl : ok = false :=
    Bool.eq_false_iff.mpr fun hok => hpass hok ⟨h.nvme, Nat.not_le.mp hcnt⟩
  obtain rfl := hok' h.faultless' fun h8 => h.ata h8.1
  exact ⟨m, m', _, _, hrun, hrun'⟩

theorem Twin.writeData (h : Twin fs gs) {lba0 n k : Nat}
    (hlba : ∀ j < n, Lba28 (wrap32 (lba0 + (k + j)))) (data : Buf) (size : Nat) :
    ∃ lbas m m' log log', Exfat.writeData lba0 data size fs n k = (0, lbas, fs.withMedia m log) ∧
      Exfat.writeData lba0 data size gs n k = (0, lbas, gs.withMedia m' log') ∧
      Twin (fs.withMedia m log) (gs.withMedia m' log') := by
  induction n generalizing fs gs k with
  | zero => exact ⟨[], fs.disks.media, gs.disks.media, fs.log, gs.log, rfl, rfl, h⟩
  | succ n ih =>
    have hfirst : Lba28 (wrap32 (lba0 + k)) := hlba 0 (by omega)
    have hread := secRd_served (h.faultless fs.issued) (wrap32 (lba0 + k)) fs.stack 0
    have hread' := secRd_served (h.faultless' gs.issued) (wrap32 (lba0 + k)) gs.stack 0
    rw [h.blit_sector hfirst, h.stack] at hread'
    -- the states after the read
    generalize fs.bump 1 = m1 at hread
    generalize gs.bump 1 = m1' at hread'
    generalize fs.log ++ [(wrap32 (lba0 + k), 1)] = log1 at hread
    generalize gs.log ++ [(wrap32 (lba0 + k), 1)] = log1' at hread'
    have hmid : Twin (fs.after m1 fs.tmp log1) (gs.after m1' gs.tmp log1') := by
      rw [h.tmp]
      exact h.after m1 m1' fs.tmp log1 log1'
    obtain ⟨m, m', log, log', hwrite, hwrite', htwin⟩ :=
      @Twin.secWr _ _ hmid (wrap32 (lba0 + k)) 1
        (fun j hj => by rwa [show wrap32 (lba0 + k) + j = wrap32 (lba0 + k) by omega]) (by omega)
        (blit (blit fs.stack 0 (fs.sector (wrap32 (lba0 + k))) 512) 0 (from_ data (k * 512))
          (min 512 (size - k * 512)))
    obtain ⟨lbas, m2, m2', log2, log2', hrest, hrest', hend⟩ := @ih _ _ htwin (k + 1) fun j hj => by
      rw [show k + 1 + j = k + (j + 1) by omega]
      exact hlba (j + 1) (by omega)
    refine ⟨wrap32 (lba0 + k) :: lbas, m2, m2', log2, log2', ?_, ?_, hend⟩
    · rw [Exfat.writeData]
      dsimp only
      rw [hread]
      dsimp only
      rw [hwrite]
      dsimp only
      rw [hrest]
      rfl
    · rw [Exfat.writeData]
      dsimp only
      rw [h.stack, hread']
      dsimp only
      rw [hwrite']
      dsimp only
      rw [hrest']
      rfl

/-- Writing the directory is the same on both exactly if the block layer does not refuse it. -/
theorem Twin.writeEntry_iff (h : Twin fs gs) {rd : Buf} (hin : EntryIn Lba28 fs rd)
    (fname : List Byte) (size freeCluster : Nat) :
    ((fs.writeEntry rd fname size freeCluster).1 = (gs.writeEntry rd fname size freeCluster).1 ∧
      SameDisk (fs.writeEntry rd fname size freeCluster).2
        (gs.writeEntry rd fname size freeCluster).2) ↔
      (dirEnd rd fs.bpc fs.bpc 0 + 96 ≤ fs.bpc → fs.dirSectors ≤ 8) := by
  unfold writeEntry
  rw [h.bpc, h.boot, h.clusterToLba]
  dsimp only
  by_cases hroom : dirEnd rd fs.bpc fs.bpc 0 + 96 > fs.bpc
  · rw [if_pos hroom, if_pos hroom]
    exact iff_of_true ⟨rfl, h.disk⟩ fun h => absurd h (by omega)
  · rw [if_neg hroom, if_neg hroom]
    have hfits : dirEnd rd fs.bpc fs.bpc 0 + 96 ≤ fs.bpc := by omega
    rw [imp_iff_right hfits]
    generalize putEntrySet rd (dirEnd rd fs.bpc fs.bpc 0) fname size freeCluster = out
    change _ ↔ (if fs.bpc / 512 = 0 then 1 else fs.bpc / 512) ≤ 8
    have hlba := hin hfits
    unfold dirSectors at hlba
    generalize (if fs.bpc / 512 = 0 then 1 else fs.bpc / 512) = cnt at hlba ⊢
    by_cases hcnt : cnt ≤ 8
    · obtain ⟨m, m', log, log', hrun, hrun', htwin⟩ :=
        h.secWr (hlba fun h8 => absurd h8.2 (by omega)) hcnt out
      rw [hrun, hrun']
      exact iff_of_true ⟨rfl, htwin.disk⟩ hcnt
    · obtain ⟨m, m', log, log', hrun, hrun'⟩ := h.secWr_wide hcnt _ out
      rw [hrun, hrun']
      exact iff_of_false (fun hsame => absurd hsame.1 (show ¬ (-5 : Int) = 0 by decide)) hcnt

theorem writeEntry_code_ne (gs : Exfat) (rd : Buf) (fname : List Byte) (size freeCluster : Nat) :
    (gs.writeEntry rd fname size freeCluster).1 ≠ -4 := by
  unfold writeEntry
  dsimp only
  split
  · exact show (-6 : Int) ≠ -4 by decide
  · split
    · exact show (-5 : Int) ≠ -4 by decide
    · exact show (0 : Int) ≠ -4 by decide

theorem Twin.writeChosen_iff (h : Twin fs gs) {rd : Buf} {bmCluster freeCluster size : Nat}
    (hin : ChosenIn Lba28 fs rd bmCluster freeCluster size) (bm : Buf) (fname : List Byte)
    (data : Buf) :
    ((fs.writeChosen rd bm bmCluster freeCluster fname data size).code =
        (gs.writeChosen rd bm bmCluster freeCluster fname data size).code ∧
      SameDisk (fs.writeChosen rd bm bmCluster freeCluster fname data size).fs
        (gs.writeChosen rd bm bmCluster freeCluster fname data size).fs) ↔
      fs.spc ≤ 8 ∧ (dirEnd rd fs.bpc fs.bpc 0 + 96 ≤ fs.bpc → fs.dirSectors ≤ 8) := by
  obtain ⟨lbas, m, m', log, log', hdata, hdata', htwin⟩ := @Twin.writeData _ _ h
    (fs.clusterToLba freeCluster) ((size + 511) / 512) 0
    (fun j hj => by rw [Nat.zero_add]; exact hin.1 j hj) data size
  unfold writeChosen
  rw [h.clusterToLba, hdata, hdata']
  dsimp only
  rw [if_neg (fun h => h rfl), if_neg (fun h => h rfl)]
  have hlba := hin.2
  rw [htwin.clusterToLba, htwin.spc]
  change (_ ∧ _) ↔ _
  by_cases hspc : fs.spc ≤ 8
  · have hpass : fs.Passes fs.spc := fun h8 => absurd h8.2 (by omega)
    obtain ⟨hmap, hentry⟩ := hlba hpass
    obtain ⟨m2, m2', log2, log2', hrun, hrun', htwin2⟩ :=
      htwin.secWr hmap hspc (setBit bm freeCluster)
    have hfs : (fs.withMedia m log).secWr ((fs.withMedia m log).clusterToLba bmCluster)
      (fs.withMedia m log).spc (setBit bm freeCluster) = _ := hrun
    have hgs : (gs.withMedia m' log').secWr ((fs.withMedia m log).clusterToLba bmCluster)
      (fs.withMedia m log).spc (setBit bm freeCluster) = _ := hrun'
    rw [hfs, hgs]
    exact (htwin2.writeEntry_iff hentry fname size freeCluster).trans (and_iff_right hspc).symm
  · have hwide : ¬ (fs.withMedia m log).spc ≤ 8 := hspc
    obtain ⟨m2, m2', log2, log2', hrun, hrun'⟩ := htwin.secWr_wide hwide _ (setBit bm freeCluster)
    rw [hrun, hrun']
    refine iff_of_false (fun hsame => ?_) fun hfit => hspc hfit.1
    exact writeEntry_code_ne _ rd fname size freeCluster hsame.1.symm

theorem Twin.exfatWriteFile_iff (h : Twin fs gs) (hok : fs.ok = true) (fname : List Byte)
    (data : Buf) {size : Nat} (hin : WriteIn Lba28 fs (nameLen fname) size) :
    ((fs.exfatWriteFile fname data size).code = (gs.exfatWriteFile fname data size).code ∧
      SameDisk (fs.exfatWriteFile fname data size).fs (gs.exfatWriteFile fname data size).fs) ↔
      fs.CountsFit (nameLen fname) size := by
  unfold exfatWriteFile CountsFit
  rw [if_pos hok, if_pos (h.ok.trans hok), h.bpc]
  by_cases hargs : nameLen fname = 0 ∨ size > fs.bpc
  · rw [if_pos hargs, if_pos hargs]
    exact iff_of_true ⟨rfl, h.disk⟩ fun hgood => absurd hargs (by omega)
  · rw [if_neg hargs, if_neg hargs]
    have hgood : nameLen fname ≠ 0 ∧ size ≤ fs.bpc := ⟨by omega, by omega⟩
    obtain ⟨hroot, hrest⟩ := hin hgood
    obtain ⟨m, log, hread⟩ := h.faultless.readCluster_eq fs.boot.rootDirCluster fs.stack
    obtain ⟨m', log', hread'⟩ := h.faultless'.readCluster_eq fs.boot.rootDirCluster fs.stack
    rw [imp_iff_right hgood, h.boot, h.stack, hread, hread', h.clusterInto hroot]
    have htwin : Twin (fs.after m fs.tmp log) (gs.after m' gs.tmp log') := by
      rw [h.tmp]
      exact h.after m m' fs.tmp log log'
    dsimp only at hrest ⊢
    rw [htwin.bpc, htwin.stack, show (fs.after m fs.tmp log).bpc = fs.bpc from rfl,
      show (fs.after m fs.tmp log).stack = fs.stack from rfl]
    generalize fs.clusterInto fs.boot.rootDirCluster fs.stack = rd at hrest ⊢
    generalize bitmapEntry rd fs.bpc fs.bpc 0 = bmCluster at hrest ⊢
    by_cases hbm : bmCluster = 0
    · rw [if_pos hbm, if_pos hbm]
      exact iff_of_true ⟨rfl, h.disk⟩ fun hne => absurd hbm hne
    · rw [if_neg hbm, if_neg hbm, imp_iff_right hbm]
      obtain ⟨hmap, hchosen⟩ := hrest hbm
      obtain ⟨m1, log1, hread1⟩ := @Faultless.readCluster_eq (fs.after m fs.tmp log) h.faultless
        bmCluster fs.stack
      obtain ⟨m1', log1', hread1'⟩ := @Faultless.readCluster_eq (gs.after m' gs.tmp log')
        h.faultless' bmCluster fs.stack
      rw [hread1, hread1', after_clusterInto, after_clusterInto, h.clusterInto hmap]
      have htwin1 : Twin ((fs.after m fs.tmp log).after m1 (fs.after m fs.tmp log).tmp log1)
          ((gs.after m' gs.tmp log').after m1' (gs.after m' gs.tmp log').tmp log1') := by
        rw [htwin.tmp]
        exact htwin.after m1 m1' _ log1 log1'
      dsimp only
      rw [htwin1.boot, show ((fs.after m fs.tmp log).after m1 (fs.after m fs.tmp log).tmp
        log1).boot = fs.boot from rfl]
      generalize searchBitmap (fs.clusterInto bmCluster fs.stack) (fs.boot.clusterCount - 2) 2 =
        freeCluster at hchosen ⊢
      by_cases hfree : freeCluster = 0
      · rw [if_pos hfree, if_pos hfree]
        exact iff_of_true ⟨rfl, h.disk⟩ fun hne => absurd hfree hne
      · rw [if_neg hfree, if_neg hfree]
        exact (htwin1.writeChosen_iff (hchosen hfree) _ fname data).trans
          (imp_iff_right hfree).symm

end Write

/-! ### Calls -/

/-- What the caller gets is the same over both, and so are the disks after the call. -/
def FileCall.Agree (fs gs : Exfat) : FileCall → Prop
  | listDir dirCluster max =>
    (fs.exfatListDir dirCluster max).1 = (gs.exfatListDir dirCluster max).1 ∧
      SameDisk (fs.exfatListDir dirCluster max).2 (gs.exfatListDir dirCluster max).2
  | find dirCluster fname =>
    (fs.exfatFind dirCluster fname).1 = (gs.exfatFind dirCluster fname).1 ∧
      SameDisk (fs.exfatFind dirCluster fname).2 (gs.exfatFind dirCluster fname).2
  | readFile firstCluster size => ∀ buf,
    readResult (fs.exfatReadFile firstCluster size buf) =
        readResult (gs.exfatReadFile firstCluster size buf) ∧
      ∀ res res', fs.exfatReadFile firstCluster size buf = some res →
        gs.exfatReadFile firstCluster size buf = some res' → SameDisk res.2.2 res'.2.2
  | writeFile fname data size =>
    (fs.exfatWriteFile fname data size).code = (gs.exfatWriteFile fname data size).code ∧
      SameDisk (fs.exfatWriteFile fname data size).fs (gs.exfatWriteFile fname data size).fs

/-- No write of the call is of more than 8 sectors. -/
def FileCall.CountsFit (fs : Exfat) : FileCall → Prop
  | writeFile fname _ size => fs.CountsFit (nameLen fname) size
  | _ => True

theorem Twin.exfatListDir {fs gs : Exfat} (h : Twin fs gs) (hok : fs.ok = true)
    {dirCluster max : Nat} (hin : ListIn Lba28 fs max dirCluster fs.tmp 0) :
    ∃ res m m' tmp log log', Exfat.exfatListDir fs dirCluster max = (res, fs.after m tmp log) ∧
      Exfat.exfatListDir gs dirCluster max = (res, gs.after m' tmp log') := by
  unfold Exfat.exfatListDir
  rw [if_pos hok, if_pos (h.ok.trans hok)]
  exact @Twin.listLoop fs gs h max (max + 1) dirCluster [] hin

/-- On sectors with numbers of 28 bits the back ends agree exactly if no write is refused over
NVMe. -/
theorem Twin.agree_iff {fs gs : Exfat} (h : Twin fs gs) (hok : fs.ok = true) {call : FileCall}
    (hin : call.In Lba28 fs) : call.Agree fs gs ↔ call.CountsFit fs := by
  cases call with
  | listDir dirCluster max =>
    obtain ⟨res, m, m', tmp, log, log', hrun, hrun'⟩ := h.exfatListDir hok hin
    refine iff_of_true ?_ trivial
    rw [FileCall.Agree, hrun, hrun']
    exact ⟨rfl, h.disk⟩
  | find dirCluster fname =>
    obtain ⟨res, m, m', tmp, log, log', hrun, hrun'⟩ := h.exfatListDir hok hin
    refine iff_of_true ?_ trivial
    rw [FileCall.Agree, exfatFind_eq hok hrun, exfatFind_eq (h.ok.trans hok) hrun']
    exact ⟨rfl, h.disk⟩
  | readFile firstCluster size =>
    refine iff_of_true (fun buf => ?_) trivial
    unfold exfatReadFile
    rw [if_pos hok, if_pos (h.ok.trans hok)]
    rcases @Twin.readLoop fs gs h size firstCluster size (fun k _ hk => hin k hk) 0 buf with
      ⟨hrun, hrun'⟩ | ⟨code, buf', m, m', tmp, log, log', hrun, hrun'⟩
    · rw [hrun, hrun']
      exact ⟨rfl, fun res res' hres => nomatch hres⟩
    · rw [hrun, hrun']
      refine ⟨rfl, fun res res' hres hres' => ?_⟩
      obtain rfl := Option.some.inj hres
      obtain rfl := Option.some.inj hres'
      exact h.disk
  | writeFile fname data size => exact h.exfatWriteFile_iff hok fname data hin

/-- A call on sectors with numbers of 28 bits, none of whose writes is of more than 8 sectors,
does the same over both back ends. On such sectors the counts are also needed. -/
theorem back_ends_agree {fs gs : Exfat} (h : Twin fs gs) (hok : fs.ok = true) (call : FileCall) :
    (call.In Lba28 fs ∧ call.CountsFit fs → call.Agree fs gs) ∧
      (call.In Lba28 fs → call.Agree fs gs → call.CountsFit fs) :=
  ⟨fun hfit => (h.agree_iff hok hfit.1).mpr hfit.2, fun hin => (h.agree_iff hok hin).mp⟩

/-- A volume of eight clusters of 16 sectors at sector 64, on the NVMe disk or on the ATA disk: the
bitmap is in cluster 3 and the root directory in 5. -/
def wideClusters (nvme : Bool) : Exfat :=
  let v := mounted 4 5 fun i =>
    match i with
    | 62464 => 0x81
    | 62484 => 3
    | _ => 0
  { v with
    disks := { v.disks with ready := nvme, queues := nvme }
    bootFrom := some (if nvme then .nvme else .ata 0 0, 64) }

theorem wideClusters_twin : Twin (wideClusters true) (wideClusters false) :=
  ⟨rfl, Bool.false_ne_true, rfl, rfl, rfl, rfl, rfl, rfl, rfl, rfl, fun _ _ _ => rfl,
    fun _ => ⟨rfl, rfl⟩, fun _ => ⟨rfl, rfl⟩⟩

theorem back_ends_agree_wideClusters :
    (FileCall.In Lba28 (wideClusters true) (.listDir 5 64) ∧
        FileCall.CountsFit (wideClusters true) (.listDir 5 64) →
      FileCall.Agree (wideClusters true) (wideClusters false) (.listDir 5 64)) ∧
    (FileCall.In Lba28 (wideClusters true) (.listDir 5 64) →
      FileCall.Agree (wideClusters true) (wideClusters false) (.listDir 5 64) →
      FileCall.CountsFit (wideClusters true) (.listDir 5 64)) :=
  back_ends_agree wideClusters_twin rfl (.listDir 5 64)

/-- Clusters of 16 sectors are accepted. Over NVMe the write of the bitmap is refused. -/
theorem wide_clusters_differ :
    fits (wideClusters true).boot = true ∧ Twin (wideClusters true) (wideClusters false) ∧
    ((wideClusters true).exfatWriteFile [0x41] (fun _ => 0x41) 1).code = -4 ∧
    ((wideClusters false).exfatWriteFile [0x41] (fun _ => 0x41) 1).code = 0 ∧
    ¬ FileCall.Agree (wideClusters true) (wideClusters false)
      (.writeFile [0x41] (fun _ => 0x41) 1) := by
  have hnvme : ((wideClusters true).exfatWriteFile [0x41] (fun _ => 0x41) 1).code = -4 := by
    decide +kernel
  have hata : ((wideClusters false).exfatWriteFile [0x41] (fun _ => 0x41) 1).code = 0 := by
    decide +kernel
  refine ⟨by decide, wideClusters_twin, hnvme, hata, fun h => ?_⟩
  have hcode := h.1
  rw [hnvme, hata] at hcode
  exact absurd hcode (by decide)

end Exfat

end WinDOS
