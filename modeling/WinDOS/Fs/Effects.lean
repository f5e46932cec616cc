import WinDOS.Fs.Reads

/-!
# What writes leave on the disk

Which sectors a write stores, whether it succeeds or not: an NVMe command keeps any of its
sectors when it fails, the ATA driver issues one command for each sector and stops at the first
that fails.
-/

set_option autoImplicit false

namespace WinDOS

open Bytes

namespace Disks

/-- Sector `j` of an ATA write that begins with command `n` is stored. -/
def AtaStored (m : Media Dev) (dev : Dev) (n j : Nat) : Prop :=
  (∀ i < j, m.faults dev (n + i) = none) ∧ m.keeps dev (n + j) 0 = true

theorem keeps_congr {m m' : Media Dev} (h : m'.faults = m.faults) (dev : Dev) (n j : Nat) :
    m'.keeps dev n j = m.keeps dev n j := by
  unfold Media.keeps
  rw [h]

theorem ataStored_succ {m m' : Media Dev} (h : m'.faults = m.faults) {dev : Dev} {n : Nat}
    (h0 : m.faults dev n = none) (j : Nat) :
    AtaStored m' dev (n + 1) j ↔ AtaStored m dev n (j + 1) := by
  unfold AtaStored
  rw [h, keeps_congr h, show n + 1 + j = n + (j + 1) by omega]
  refine and_congr_left fun _ => ⟨fun hall i hi => ?_, fun hall i hi => ?_⟩
  · cases i with
    | zero => exact h0
    | succ i =>
      rw [show n + (i + 1) = n + 1 + i by omega]
      exact hall i (by omega)
  · rw [show n + 1 + i = n + (i + 1) by omega]
    exact hall (i + 1) (by omega)

/-- The sectors before the first command that fails are stored, and what that command keeps. -/
theorem ideWriteSector_effect (ch dv : Nat) (d : Disks) {lba cnt : Nat} (buf : Buf)
    (hcnt : cnt ≤ 2 ^ 28) : ∃ ok m, d.ideWriteSector ch dv lba cnt buf = (ok, { d with media := m }) ∧
      m.faults = d.media.faults ∧
      (ok = true ↔
        ∀ i < cnt, d.media.faults (.ata ch dv) (d.media.issued (.ata ch dv) + i) = none) ∧
      (ok = true → m.issued (.ata ch dv) = d.media.issued (.ata ch dv) + cnt) ∧
      Media.Stores (d.media.sector (.ata ch dv)) (m.sector (.ata ch dv)) cnt
        (AtaStored d.media (.ata ch dv) (d.media.issued (.ata ch dv))) (fun j => lba28 (lba + j))
        fun j i => buf (j * 512 + i) := by
  induction cnt generalizing d lba buf with
  | zero =>
    exact ⟨true, d.media, rfl, rfl, iff_of_true rfl fun i hi => absurd hi (Nat.not_lt_zero i),
      fun _ => rfl, .zero ..⟩
  | succ cnt ih =>
    obtain ⟨m1, hwrite, hfaults, hissued, hfirst⟩ :=
      d.media.write_effect (.ata ch dv) (lba28 lba) 1 buf
    have hfirst : Media.Stores (d.media.sector (.ata ch dv)) (m1.sector (.ata ch dv)) 1
        (fun _ => AtaStored d.media (.ata ch dv) (d.media.issued (.ata ch dv)) 0)
        (fun _ => lba28 (lba + 0)) fun _ i => buf (0 * 512 + i) := by
      refine ⟨fun _ _ hst i hi => ?_, fun a ha i hi => ?_⟩
      · exact hfirst.inside 0 Nat.one_pos hst.2 i hi
      · refine hfirst.outside a (fun j hj hk => ?_) i hi
        obtain rfl : j = 0 := by omega
        exact ha 0 Nat.one_pos ⟨fun i hi => absurd hi (Nat.not_lt_zero i), hk⟩
    rw [ideWriteSector, hwrite]
    rcases hf : d.media.faults (.ata ch dv) (d.media.issued (.ata ch dv)) with _ | kept
    · dsimp only [Option.isNone]
      obtain ⟨ok, m, hrun, hfaults', hok, hissued', hrest⟩ :=
        @ih { d with media := m1 } (lba + 1) (from_ buf 512) (by omega)
      dsimp only at hok hissued' hrest
      rw [hissued] at hok hissued' hrest
      rw [hfaults] at hok
      refine ⟨ok, m, hrun, hfaults'.trans hfaults, hok.trans ⟨fun h i hi => ?_, fun h i hi => ?_⟩,
        fun h => ?_, hfirst.cons ⟨fun j hj hst i hi => ?_, fun a ha i hi => ?_⟩ fun j hj heq => ?_⟩
      · cases i with
        | zero => exact hf
        | succ i =>
          rw [show d.media.issued (.ata ch dv) + (i + 1) = d.media.issued (.ata ch dv) + 1 + i by omega]
          exact h i (by omega)
      · rw [show d.media.issued (.ata ch dv) + 1 + i = d.media.issued (.ata ch dv) + (i + 1) by omega]
        exact h (i + 1) (by omega)
      · rw [hissued' h]
        omega
      · rw [show lba + (j + 1) = lba + 1 + j by omega,
          hrest.inside j hj ((ataStored_succ hfaults hf j).mpr hst) i hi, from_]
        congr 1
        omega
      · refine hrest.outside a (fun j hj hst => ?_) i hi
        rw [show lba + 1 + j = lba + (j + 1) by omega]
        exact ha j hj ((ataStored_succ hfaults hf j).mp hst)
      · unfold lba28 at heq
        omega
    · dsimp only [Option.isNone]
      have hfail : ¬ d.media.faults (.ata ch dv) (d.media.issued (.ata ch dv) + 0) = none := by
        rw [Nat.add_zero, hf]
        exact Option.some_ne_none kept
      exact ⟨false, m1, rfl, hfaults, iff_of_false Bool.false_ne_true fun h => hfail (h 0 (by omega)),
        fun h => absurd h Bool.false_ne_true, hfirst.only fun j hst => hfail (hst.1 0 (by omega))⟩

end Disks

namespace Exfat

/-- The state with another medium and log. -/
def withMedia (fs : Exfat) (m : Media Dev) (log : List (Nat × Nat)) : Exfat :=
  { fs with disks := { fs.disks with media := m }, log := log }

/-- The sector at an address of the addressed device. -/
def cell (fs : Exfat) (a : Nat) : Buf := fs.disks.media.sector fs.dev a

/-- A write of `cnt` sectors that begins with command `n` succeeds. -/
def Done (fs : Exfat) (n cnt : Nat) : Prop :=
  if fs.disks.ready then cnt ≤ 8 ∧ fs.served n else ∀ i < cnt, fs.served (n + i)

/-- Its sector `j` is stored. -/
def Stored (fs : Exfat) (n cnt j : Nat) : Prop :=
  if fs.disks.ready then
    cnt ≤ 8 ∧ fs.disks.queues = true ∧ fs.disks.media.keeps fs.dev n j = true
  else (∀ i < j, fs.served (n + i)) ∧ fs.disks.media.keeps fs.dev (n + j) 0 = true

/-- The number of its commands. -/
def cmds (fs : Exfat) (cnt : Nat) : Nat := if fs.disks.ready then 1 else cnt

section WithMedia

variable {fs : Exfat} {m : Media Dev} {log : List (Nat × Nat)}

@[simp] theorem withMedia_boot : (fs.withMedia m log).boot = fs.boot := rfl
@[simp] theorem withMedia_ok : (fs.withMedia m log).ok = fs.ok := rfl
@[simp] theorem withMedia_bps : (fs.withMedia m log).bps = fs.bps := rfl
@[simp] theorem withMedia_spc : (fs.withMedia m log).spc = fs.spc := rfl
@[simp] theorem withMedia_bpc : (fs.withMedia m log).bpc = fs.bpc := rfl
@[simp] theorem withMedia_stack : (fs.withMedia m log).stack = fs.stack := rfl
@[simp] theorem withMedia_dev : (fs.withMedia m log).dev = fs.dev := rfl
@[simp] theorem withMedia_addr (lba : Nat) : (fs.withMedia m log).addr lba = fs.addr lba := rfl
@[simp] theorem withMedia_cmds (cnt : Nat) : (fs.withMedia m log).cmds cnt = fs.cmds cnt := rfl
@[simp] theorem withMedia_clusterToLba (c : Nat) :
    (fs.withMedia m log).clusterToLba c = fs.clusterToLba c := rfl
@[simp] theorem withMedia_withMedia (m' : Media Dev) (log' : List (Nat × Nat)) :
    (fs.withMedia m log).withMedia m' log' = fs.withMedia m' log' := rfl

theorem withMedia_served (hm : m.faults = fs.disks.media.faults) (n : Nat) :
    (fs.withMedia m log).served n ↔ fs.served n := by
  unfold served
  change _ ∧ m.faults fs.dev n = none ↔ _
  rw [hm]
  exact Iff.rfl

theorem withMedia_keeps (hm : m.faults = fs.disks.media.faults) (d : Dev) (n j : Nat) :
    m.keeps d n j = fs.disks.media.keeps d n j := by
  unfold Media.keeps
  rw [hm]

theorem withMedia_done (hm : m.faults = fs.disks.media.faults) (n cnt : Nat) :
    (fs.withMedia m log).Done n cnt ↔ fs.Done n cnt := by
  unfold Done
  simp only [withMedia_served hm]
  exact Iff.rfl

theorem withMedia_stored (hm : m.faults = fs.disks.media.faults) (n cnt j : Nat) :
    (fs.withMedia m log).Stored n cnt j ↔ fs.Stored n cnt j := by
  unfold Stored
  simp only [withMedia_served hm]
  change (if fs.disks.ready then cnt ≤ 8 ∧ fs.disks.queues = true ∧ m.keeps fs.dev n j = true
    else _ ∧ m.keeps fs.dev (n + j) 0 = true) ↔ _
  rw [withMedia_keeps hm, withMedia_keeps hm]

end WithMedia

section Write

variable {fs : Exfat}

theorem served_ata (hr : ¬ fs.disks.ready = true) (n : Nat) :
    fs.served n ↔ fs.disks.media.faults fs.dev n = none := by
  unfold served
  exact and_iff_right (by simp [online, hr])

theorem served_all_ata (hr : ¬ fs.disks.ready = true) (n k : Nat) :
    (∀ i < k, fs.served (n + i)) ↔ ∀ i < k, fs.disks.media.faults fs.dev (n + i) = none :=
  forall₂_congr fun _ _ => served_ata hr _

theorem done_nvme (hr : fs.disks.ready = true) (n cnt : Nat) :
    fs.Done n cnt ↔ cnt ≤ 8 ∧ fs.served n := by
  unfold Done
  rw [if_pos hr]

theorem done_ata (hr : ¬ fs.disks.ready = true) (n cnt : Nat) :
    fs.Done n cnt ↔ ∀ i < cnt, fs.served (n + i) := by
  unfold Done
  rw [if_neg hr]

theorem stored_nvme (hr : fs.disks.ready = true) (n cnt j : Nat) :
    fs.Stored n cnt j ↔
      cnt ≤ 8 ∧ fs.disks.queues = true ∧ fs.disks.media.keeps fs.dev n j = true := by
  unfold Stored
  rw [if_pos hr]

theorem stored_ata (hr : ¬ fs.disks.ready = true) (n cnt j : Nat) :
    fs.Stored n cnt j ↔
      (∀ i < j, fs.served (n + i)) ∧ fs.disks.media.keeps fs.dev (n + j) 0 = true := by
  unfold Stored
  rw [if_neg hr]

/-- What a write of the block layer stores, and whether it succeeds. -/
theorem secWr_effect (lba : Nat) {cnt : Nat} (buf : Buf) (hcnt : cnt ≤ 2 ^ 28) :
    ∃ ok m log, fs.secWr lba cnt buf = (ok, fs.withMedia m log) ∧
      m.faults = fs.disks.media.faults ∧
      (ok = true ↔ fs.Done fs.issued cnt) ∧
      (ok = true → (fs.withMedia m log).issued = fs.issued + fs.cmds cnt) ∧
      Media.Stores fs.cell (fs.withMedia m log).cell cnt (fs.Stored fs.issued cnt)
        (fun j => fs.addr (lba + j)) fun j i => buf (j * 512 + i) := by
  unfold secWr
  dsimp only
  by_cases hr : fs.disks.ready = true
  · have hdone := done_nvme hr fs.issued cnt
    have hstored := stored_nvme hr fs.issued cnt
    have hnothing : (∀ j, ¬ fs.Stored fs.issued cnt j) → Media.Stores fs.cell fs.cell cnt
        (fs.Stored fs.issued cnt) (fun j => fs.addr (lba + j)) fun j i => buf (j * 512 + i) :=
      fun hno => ⟨fun j _ hst => absurd hst (hno j), fun _ _ _ _ => rfl⟩
    rw [if_pos hr]
    by_cases h8 : cnt > 8
    · rw [if_pos h8]
      exact ⟨false, fs.disks.media, _, rfl, rfl,
        iff_of_false Bool.false_ne_true fun h => absurd (hdone.mp h).1 (by omega),
        fun h => absurd h Bool.false_ne_true,
        hnothing fun j h => absurd ((hstored j).mp h).1 (by omega)⟩
    · rw [if_neg h8]
      unfold Disks.nvmeWrite
      by_cases hq : fs.disks.queues = true
      · have hon : (fs.disks.ready && fs.disks.queues) = true := by rw [hr, hq]; rfl
        obtain ⟨m, hwrite, hfaults, hissued, hstores⟩ :=
          fs.disks.media.write_effect fs.dev lba cnt buf
        rw [dev_nvme hr] at hwrite
        dsimp only
        rw [if_pos hon, hwrite]
        refine ⟨_, m, _, rfl, hfaults, ?_, fun _ => ?_, ?_⟩
        · rw [hdone, Option.isNone_iff_eq_none, ← dev_nvme hr]
          unfold served
          rw [and_iff_right (by omega : cnt ≤ 8),
            and_iff_right (show fs.online = true by simp [online, hq])]
          exact Iff.rfl
        · unfold cmds
          rw [if_pos hr]
          exact hissued
        · rw [show (fun j => fs.addr (lba + j)) = fun j => lba + j from
            funext fun j => addr_nvme hr _]
          refine hstores.congr (fun j _ => ?_) fun _ _ _ _ => rfl
          rw [hstored, and_iff_right (by omega : cnt ≤ 8), and_iff_right hq]
          exact Iff.rfl
      · rw [if_neg (by simp [hq])]
        refine ⟨false, fs.disks.media, _, rfl, rfl, iff_of_false Bool.false_ne_true fun h => ?_,
          fun h => absurd h Bool.false_ne_true,
          hnothing fun j h => absurd ((hstored j).mp h).2.1 hq⟩
        have := (hdone.mp h).2.1
        simp [online, hr, hq] at this
  · obtain ⟨ok, m, hrun, hfaults, hok, hissued, hstores⟩ :=
      @Disks.ideWriteSector_effect fs.ch fs.dv fs.disks lba cnt buf hcnt
    simp only [← dev_ata hr] at hok hissued hstores
    rw [if_neg hr, hrun]
    refine ⟨ok, m, _, rfl, hfaults, ?_, fun h => ?_, ?_⟩
    · rw [done_ata hr, served_all_ata hr, hok]
      exact Iff.rfl
    · unfold cmds
      rw [if_neg hr]
      exact hissued h
    · rw [show (fun j => fs.addr (lba + j)) = fun j => lba28 (lba + j) from
        funext fun j => addr_ata hr _]
      refine hstores.congr (fun j _ => ?_) fun _ _ _ _ => rfl
      rw [stored_ata hr, served_all_ata hr]
      exact Iff.rfl

end Write

/-! ### The copy loop -/

theorem addr_inj (fs : Exfat) {lba i j : Nat} (hi : i < 2 ^ 28) (hj : j < 2 ^ 28)
    (h : fs.addr (wrap32 (lba + i)) = fs.addr (wrap32 (lba + j))) : i = j := by
  unfold addr wrap32 lba28 at h
  split at h <;> omega

/-- Sector `j` of the data is stored: everything before its write is served, and the write keeps
it. -/
def DataStored (fs : Exfat) (n j : Nat) : Prop :=
  (∀ i < 2 * j + 1, fs.served (n + i)) ∧ fs.disks.media.keeps fs.dev (n + (2 * j + 1)) 0 = true

/-- Sector `j` of the data as it is written over what was there. -/
def dataSector (old data : Buf) (size j : Nat) : Buf := fun i =>
  if i < min 512 (size - j * 512) then data (j * 512 + i) else old i

section Data

variable {fs : Exfat}

theorem done_one (n : Nat) : fs.Done n 1 ↔ fs.served n := by
  unfold Done
  split
  · exact and_iff_right (by omega)
  · exact ⟨fun h => h 0 Nat.one_pos, fun h i hi => by rwa [show n + i = n by omega]⟩

theorem stored_one (n : Nat) :
    fs.Stored n 1 0 ↔ fs.online = true ∧ fs.disks.media.keeps fs.dev n 0 = true := by
  unfold Stored online
  split
  · rename_i hr
    rw [and_iff_right (by omega : 1 ≤ 8), hr]
    exact Iff.rfl
  · rename_i hr
    rw [and_iff_right fun i hi => absurd hi (Nat.not_lt_zero i), and_iff_right (by simp [hr])]
    exact Iff.rfl

theorem cmds_one : fs.cmds 1 = 1 := by
  unfold cmds
  split <;> rfl

/-- The sector that a round of the copy loop writes back. -/
theorem blit_dataSector (fs : Exfat) (lba : Nat) (data : Buf) (size k : Nat) {i : Nat} (hi : i < 512) :
    blit (blit fs.stack 0 (fs.sector lba) 512) 0 (from_ data (k * 512)) (min 512 (size - k * 512)) i =
      dataSector (fs.cell (fs.addr lba)) data size k i := by
  unfold dataSector
  by_cases hi' : i < min 512 (size - k * 512)
  · rw [if_pos hi', blit_in (by omega) (by omega)]
    rfl
  · rw [if_neg hi', blit_above (by omega), blit_in (by omega) (by omega), Nat.sub_zero]
    rfl

theorem writeData_round (lba0 : Nat) (data : Buf) (size : Nat) (h0 : fs.served fs.issued) (n k : Nat) :
    ∃ ok m log, writeData lba0 data size fs (n + 1) k =
        (if ok then
          let r := writeData lba0 data size (fs.withMedia m log) n (k + 1)
          (r.1, wrap32 (lba0 + k) :: r.2.1, r.2.2)
        else (-3, [wrap32 (lba0 + k)], fs.withMedia m log)) ∧
      m.faults = fs.disks.media.faults ∧ (ok = true ↔ fs.served (fs.issued + 1)) ∧
      (ok = true → (fs.withMedia m log).issued = fs.issued + 2) ∧
      Media.Stores fs.cell (fs.withMedia m log).cell 1 (fun _ => fs.DataStored fs.issued 0)
        (fun _ => fs.addr (wrap32 (lba0 + k)))
        fun _ => dataSector (fs.cell (fs.addr (wrap32 (lba0 + k)))) data size k := by
  rw [writeData]
  dsimp only
  rw [secRd_served h0]
  dsimp only
  -- the state after the read, with the contents it had
  obtain ⟨m1, log1, hfs1, hm1, hcell1, hissued1⟩ : ∃ m1 log1,
      fs.after (fs.bump 1) fs.tmp (fs.log ++ [(wrap32 (lba0 + k), 1)]) = fs.withMedia m1 log1 ∧
      m1.faults = fs.disks.media.faults ∧ (fs.withMedia m1 log1).cell = fs.cell ∧
      (fs.withMedia m1 log1).issued = fs.issued + 1 :=
    ⟨{ fs.disks.media with issued := fs.bump 1 }, fs.log ++ [(wrap32 (lba0 + k), 1)], rfl, rfl, rfl,
      (after_issued fs _ fs.tmp _).trans (bump_dev fs 1)⟩
  rw [hfs1]
  obtain ⟨ok, m, log, hrun, hfaults, hok, hissued, hstores⟩ := @secWr_effect (fs.withMedia m1 log1)
    (wrap32 (lba0 + k)) 1 (blit (blit fs.stack 0 (fs.sector (wrap32 (lba0 + k))) 512) 0
      (from_ data (k * 512)) (min 512 (size - k * 512))) (by omega)
  simp only [withMedia_withMedia, withMedia_addr, withMedia_done hm1, hissued1, done_one, cmds_one,
    hcell1] at hrun hok hissued hstores
  refine ⟨ok, m, log, ?_, hfaults.trans hm1, hok, hissued, fun j _ hst i hi => ?_,
    fun a ha i hi => ?_⟩
  · rw [hrun]
    cases ok <;> rfl
  · have hkept : (fs.withMedia m1 log1).Stored (fs.issued + 1) 1 0 := by
      rw [withMedia_stored hm1, stored_one]
      exact ⟨h0.1, hst.2⟩
    have := hstores.inside 0 Nat.one_pos hkept i hi
    rwa [Nat.zero_mul, Nat.zero_add, blit_dataSector fs _ data size k hi] at this
  · refine hstores.outside a (fun j hj hst => ?_) i hi
    obtain rfl : j = 0 := by omega
    rw [withMedia_stored hm1, stored_one] at hst
    refine ha 0 Nat.one_pos ⟨fun i hi => ?_, hst.2⟩
    rwa [show i = 0 by omega]

theorem served_two {n k : Nat} (h0 : fs.served n) (h1 : fs.served (n + 1)) :
    (∀ i < 2 + k, fs.served (n + i)) ↔ ∀ i < k, fs.served (n + 2 + i) := by
  constructor
  · intro h i hi
    rw [Nat.add_assoc]
    exact h (2 + i) (by omega)
  · intro h i hi
    match i with
    | 0 => exact h0
    | 1 => exact h1
    | i + 2 =>
      rw [show n + (i + 2) = n + 2 + i by omega]
      exact h i (by omega)

theorem dataStored_succ {n : Nat} (h0 : fs.served n) (h1 : fs.served (n + 1)) (j : Nat) :
    fs.DataStored n (j + 1) ↔ fs.DataStored (n + 2) j := by
  unfold DataStored
  rw [show 2 * (j + 1) + 1 = 2 + (2 * j + 1) by omega, served_two h0 h1, ← Nat.add_assoc]

theorem withMedia_dataStored {m : Media Dev} {log : List (Nat × Nat)}
    (hm : m.faults = fs.disks.media.faults) (n j : Nat) :
    (fs.withMedia m log).DataStored n j ↔ fs.DataStored n j := by
  unfold DataStored
  simp only [withMedia_served hm]
  change _ ∧ m.keeps fs.dev _ 0 = true ↔ _
  rw [withMedia_keeps hm]

/-- What the copy loop stores, and whether it comes to its end. -/
theorem writeData_effect (lba0 : Nat) (data : Buf) (size : Nat) (fs : Exfat) {n : Nat} (k : Nat)
    (hn : k + n ≤ 2 ^ 28) :
    ∃ code lbas m log, writeData lba0 data size fs n k = (code, lbas, fs.withMedia m log) ∧
      m.faults = fs.disks.media.faults ∧
      (code = 0 ↔ ∀ j < 2 * n, fs.served (fs.issued + j)) ∧
      (code = 0 → (fs.withMedia m log).issued = fs.issued + 2 * n) ∧
      Media.Stores fs.cell (fs.withMedia m log).cell n (fs.DataStored fs.issued)
        (fun j => fs.addr (wrap32 (lba0 + (k + j))))
        fun j => dataSector (fs.cell (fs.addr (wrap32 (lba0 + (k + j))))) data size (k + j) := by
  induction n generalizing fs k with
  | zero =>
    exact ⟨0, [], fs.disks.media, fs.log, rfl, rfl,
      iff_of_true rfl fun j hj => absurd hj (Nat.not_lt_zero j), fun _ => rfl, .zero ..⟩
  | succ n ih =>
    by_cases h0 : fs.served fs.issued
    · obtain ⟨ok, m, log, hrun, hfaults, hok, hissued, hfirst⟩ :=
        writeData_round lba0 data size h0 n k
      rw [hrun]
      cases ok with
      | true =>
        have h1 : fs.served (fs.issued + 1) := hok.mp rfl
        have hapart : ∀ j < n, fs.addr (wrap32 (lba0 + (k + (j + 1)))) ≠ fs.addr (wrap32 (lba0 + k)) :=
          fun j hj heq => by
            have := fs.addr_inj (by omega) (by omega) heq
            omega
        obtain ⟨code, lbas, m', log', hrun', hfaults', hcode, hissued', hrest⟩ :=
          @ih (fs.withMedia m log) (k + 1) (by omega)
        rw [hissued rfl] at hcode hissued' hrest
        simp only [withMedia_withMedia, withMedia_addr, withMedia_served hfaults,
          show ∀ j, k + 1 + j = k + (j + 1) from fun j => by omega] at hrun' hcode hissued' hrest
        refine ⟨code, wrap32 (lba0 + k) :: lbas, m', log', ?_, hfaults'.trans hfaults, ?_, fun h => ?_,
          hfirst.cons (hrest.congr (fun j _ => ?_) fun j hj i hi => ?_) hapart⟩
        · rw [if_pos rfl]
          dsimp only
          rw [hrun']
        · rw [hcode, show 2 * (n + 1) = 2 + 2 * n by omega, served_two h0 h1]
        · rw [hissued' h]
          omega
        · rw [withMedia_dataStored hfaults, dataStored_succ h0 h1]
        · -- the first sector's write has left the others alone
          unfold dataSector
          rw [hfirst.outside _ (fun _ _ _ => hapart j hj) i hi]
      | false =>
        have h1 : ¬ fs.served (fs.issued + 1) := fun h => absurd (hok.mpr h) Bool.false_ne_true
        exact ⟨-3, _, m, log, rfl, hfaults,
          iff_of_false (by decide) fun h => h1 (h 1 (by omega)), fun h => absurd h (by decide),
          hfirst.only fun j hst => h1 (hst.1 1 (by omega))⟩
    · obtain ⟨m, hm⟩ := secRd_failed h0 (wrap32 (lba0 + k)) fs.stack 0
      rw [writeData]
      dsimp only
      rw [hm]
      exact ⟨-2, [], { fs.disks.media with issued := m }, _, rfl, rfl,
        iff_of_false (by decide) fun h => h0 (h 0 (by omega)), fun h => absurd h (by decide),
        fun j _ hst => absurd (hst.1 0 (by omega)) h0, fun _ _ _ _ => rfl⟩

end Data

end Exfat

end WinDOS
