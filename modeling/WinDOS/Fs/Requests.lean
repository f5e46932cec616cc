import WinDOS.Fs.Effects
import WinDOS.Fs.Directory
import WinDOS.Lib.Trace
import Mathlib.Logic.Function.Iterate

/-!
# The sectors a call asks for

Which sectors a call of the driver asks of the block layer, for volumes of any geometry. They
depend on the contents of the disk before the call only; a device that fails makes a call stop
early.
-/

set_option autoImplicit false

namespace WinDOS

open Bytes Trace

namespace Exfat

/-! ### Contents -/

/-- A buffer after the loop of `read_cluster`. -/
def sectorsInto (fs : Exfat) (lba : Nat) : Nat → Nat → Buf → Buf
  | 0, _, buf => buf
  | n + 1, i, buf =>
    fs.sectorsInto lba n (i + 1) (blit buf (i * fs.bps) (fs.sector (wrap32 (lba + i))) 512)

def clusterInto (fs : Exfat) (c : Nat) (buf : Buf) : Buf :=
  fs.sectorsInto (fs.clusterToLba c) fs.spc 0 buf

/-- The cluster after `c`, as the driver looks it up. -/
def nextOf (fs : Exfat) (c : Nat) : Nat :=
  if fs.boot.fatLength > 0 then
    le (blit fs.stack 0 (fs.sector (fs.fatLba c)) 512) (c * 4 % fs.bps) 4
  else wrap32 (c + 1)

@[simp] theorem after_sectorsInto (fs : Exfat) (m : Dev → Nat) (tmp : Buf) (log : List (Nat × Nat))
    (lba n i : Nat) (buf : Buf) :
    (fs.after m tmp log).sectorsInto lba n i buf = fs.sectorsInto lba n i buf := by
  induction n generalizing i buf with
  | zero => rfl
  | succ n ih =>
    rw [sectorsInto, sectorsInto, ih]
    rfl

@[simp] theorem after_clusterInto (fs : Exfat) (m : Dev → Nat) (tmp : Buf) (log : List (Nat × Nat)) :
    (fs.after m tmp log).clusterInto = fs.clusterInto :=
  funext fun _ => funext fun _ => after_sectorsInto ..

/-! ### Requests -/

/-- The block layer passes a request for `cnt` sectors on to the device. -/
def Passes (fs : Exfat) (cnt : Nat) : Prop := ¬ (fs.disks.ready = true ∧ 8 < cnt)

/-- Every sector of a request that is passed on is in `S`. -/
def Confined (S : Nat → Prop) (fs : Exfat) (e : Nat × Nat) : Prop :=
  fs.Passes e.2 → ∀ j < e.2, S (e.1 + j)

def ClusterIn (S : Nat → Prop) (fs : Exfat) (c : Nat) : Prop :=
  ∀ j < fs.spc, S (wrap32 (fs.clusterToLba c + j))

/-- The sector of the FAT that holds the entry of a cluster is in `S`. -/
def FatIn (S : Nat → Prop) (fs : Exfat) (c : Nat) : Prop := fs.boot.fatLength > 0 → S (fs.fatLba c)

def Faultless (fs : Exfat) : Prop := ∀ n, fs.served n

/-- The requests added to the log are confined to `S` if `P` holds, and exactly then if no command
fails. -/
def Asks (S : Nat → Prop) (fs gs : Exfat) (P : Prop) : Prop :=
  Adds (Confined S fs) fs.Faultless fs.log gs.log P

section Read

variable {S : Nat → Prop} {fs : Exfat}

theorem confined_one (lba : Nat) : Confined S fs (lba, 1) ↔ S lba := by
  constructor
  · exact fun h => h (fun h8 => absurd h8.2 (show ¬ 8 < 1 by decide)) 0 Nat.one_pos
  · intro h _ j hj
    rwa [show lba + j = lba by omega]

theorem asks_one (m : Dev → Nat) (tmp : Buf) (lba : Nat) :
    Asks S fs (fs.after m tmp (fs.log ++ [(lba, 1)])) (S lba) :=
  (Adds.one (lba, 1)).congr (confined_one lba).symm

theorem sectors_succ_iff (S : Nat → Prop) (lba i n : Nat) :
    (∀ j < n + 1, S (wrap32 (lba + (i + j)))) ↔
      S (wrap32 (lba + i)) ∧ ∀ j < n, S (wrap32 (lba + (i + 1 + j))) := by
  rw [Nat.forall_lt_succ_left, Nat.add_zero]
  refine and_congr_right fun _ => forall₂_congr fun j _ => ?_
  rw [show i + (j + 1) = i + 1 + j by omega]

theorem readSectors_asks (lba n i : Nat) (buf : Buf) :
    ∃ ok buf' m log, readSectors lba fs n i buf = (ok, buf', fs.after m fs.tmp log) ∧
      (ok = true → buf' = fs.sectorsInto lba n i buf) ∧ (fs.Faultless → ok = true) ∧
      Asks S fs (fs.after m fs.tmp log) (∀ j < n, S (wrap32 (lba + (i + j)))) := by
  induction n generalizing fs i buf with
  | zero =>
    refine ⟨true, buf, fs.bump 0, fs.log, ?_, fun _ => rfl, fun _ => rfl,
      Adds.nil fun j hj => absurd hj (Nat.not_lt_zero j)⟩
    rw [after_self]
    rfl
  | succ n ih =>
    rw [readSectors]
    by_cases hnow : fs.served fs.issued
    · rw [secRd_served hnow]
      obtain ⟨ok, buf', m, log, hrun, hinto, hok, hasks⟩ :=
        @ih (fs.after (fs.bump 1) fs.tmp (fs.log ++ [(wrap32 (lba + i), 1)])) (i + 1)
          (blit buf (i * fs.bps) (fs.sector (wrap32 (lba + i))) 512)
      refine ⟨ok, buf', m, log, hrun, fun h => ?_, hok,
        ((asks_one _ fs.tmp _).trans hasks).congr (sectors_succ_iff S lba i n)⟩
      rw [hinto h, after_sectorsInto]
      rfl
    · obtain ⟨m, hm⟩ := secRd_failed hnow (wrap32 (lba + i)) buf (i * fs.bps)
      rw [hm]
      exact ⟨false, buf, m, _, rfl, fun h => absurd h Bool.false_ne_true,
        fun h => absurd (h _) hnow,
        (asks_one m fs.tmp _).stopped (fun h => hnow (h _)) fun h => h 0 (by omega)⟩

theorem readCluster_asks (c : Nat) (buf : Buf) :
    ∃ ok buf' m log, fs.readCluster c buf = (ok, buf', fs.after m fs.tmp log) ∧
      (ok = true → buf' = fs.clusterInto c buf) ∧ (fs.Faultless → ok = true) ∧
      Asks S fs (fs.after m fs.tmp log) (ClusterIn S fs c) := by
  obtain ⟨ok, buf', m, log, hrun, hinto, hok, hasks⟩ :=
    @readSectors_asks S fs (fs.clusterToLba c) fs.spc 0 buf
  refine ⟨ok, buf', m, log, hrun, hinto, hok, hasks.congr ?_⟩
  simp only [Nat.zero_add]
  exact Iff.rfl

theorem nextCluster_asks (c : Nat) :
    ∃ v m log, fs.nextCluster c = (v, fs.after m fs.tmp log) ∧
      (v = fs.nextOf c ∨ v = CHAIN_END ∧ ¬ fs.Faultless) ∧
      Asks S fs (fs.after m fs.tmp log) (FatIn S fs c) := by
  unfold nextCluster nextOf FatIn
  by_cases hfat : fs.boot.fatLength > 0
  · rw [if_pos hfat, if_pos hfat]
    by_cases hnow : fs.served fs.issued
    · rw [secRd_served hnow]
      exact ⟨_, _, _, rfl, .inl rfl, (asks_one _ fs.tmp _).congr ⟨fun h => h hfat, fun h _ => h⟩⟩
    · obtain ⟨m, hm⟩ := secRd_failed hnow (fs.fatLba c) fs.stack 0
      rw [hm]
      exact ⟨_, m, _, rfl, .inr ⟨rfl, fun h => hnow (h _)⟩,
        (asks_one m fs.tmp _).congr ⟨fun h => h hfat, fun h _ => h⟩⟩
  · rw [if_neg hfat, if_neg hfat]
    refine ⟨_, fs.bump 0, fs.log, ?_, .inl rfl, Adds.nil fun h => absurd h hfat⟩
    rw [after_self]

end Read

/-! ### Listing a directory -/

/-- `exfat_list_dir` with room for `max` entries gets from cluster `c`, with `tmp` in `g_tmp` and
`n` entries found, to cluster `d` with `tmp'` and `n'`. -/
inductive ListVisits (next : Nat → Nat) (into : Nat → Buf → Buf) (bpc max : Nat) :
    Nat → Buf → Nat → Nat → Buf → Nat → Prop where
  | here {c : Nat} {tmp : Buf} {n : Nat} : 2 ≤ c → c ≠ CHAIN_END →
      ListVisits next into bpc max c tmp n c tmp n
  | later {c : Nat} {tmp : Buf} {n d : Nat} {tmp' : Buf} {n' : Nat} : 2 ≤ c → c ≠ CHAIN_END →
      (parseDirCluster (into c tmp) bpc (max - n)).length ≠ 0 →
      ListVisits next into bpc max (next c) (into c tmp)
        (n + (parseDirCluster (into c tmp) bpc (max - n)).length) d tmp' n' →
      ListVisits next into bpc max c tmp n d tmp' n'

/-- Wherever listing a directory gets to, `A` holds. -/
def ListAll (A : Nat → Buf → Nat → Prop) (fs : Exfat) (max c : Nat) (tmp : Buf) (n : Nat) : Prop :=
  ∀ d tmp' n', ListVisits fs.nextOf fs.clusterInto fs.bpc max c tmp n d tmp' n' → A d tmp' n'

/-- The sectors that listing a directory asks for are in `S`: those of the clusters it gets to,
and of their entries in the FAT unless a cluster has no file. -/
def ListIn (S : Nat → Prop) (fs : Exfat) (max c : Nat) (tmp : Buf) (n : Nat) : Prop :=
  ListAll (fun d tmp' n' => ClusterIn S fs d ∧
    ((parseDirCluster (fs.clusterInto d tmp') fs.bpc (max - n')).length ≠ 0 → FatIn S fs d))
    fs max c tmp n

theorem length_parseEntries_le (cb : Buf) (bpc max fuel off : Nat) {out : List ExfatFileInfo}
    (h : out.length ≤ max) : (parseEntries cb bpc max fuel off out).length ≤ max := by
  induction fuel generalizing off out with
  | zero => exact h
  | succ fuel ih =>
    rw [parseEntries]
    by_cases hmore : off < bpc ∧ out.length < max
    · rw [if_pos hmore]
      by_cases heod : cb off = EXFAT_EOD
      · rw [if_pos heod]
        exact h
      · rw [if_neg heod]
        by_cases hfile : cb off = EXFAT_FILE
        · rw [if_pos hfile]
          exact ih _ (by rw [List.length_append, List.length_singleton]; omega)
        · rw [if_neg hfile]
          exact ih _ h
    · rw [if_neg hmore]
      exact h

theorem length_parseDirCluster_le (cb : Buf) (bpc max : Nat) :
    (parseDirCluster cb bpc max).length ≤ max :=
  length_parseEntries_le cb bpc max bpc 0 (Nat.zero_le max)

section List

variable {S : Nat → Prop} {fs : Exfat} {max : Nat}

theorem listAll_iff {A : Nat → Buf → Nat → Prop} {c : Nat} (h2 : 2 ≤ c) (hne : c ≠ CHAIN_END)
    (tmp : Buf) (n : Nat) : ListAll A fs max c tmp n ↔ A c tmp n ∧
      ((parseDirCluster (fs.clusterInto c tmp) fs.bpc (max - n)).length ≠ 0 →
        ListAll A fs max (fs.nextOf c) (fs.clusterInto c tmp)
          (n + (parseDirCluster (fs.clusterInto c tmp) fs.bpc (max - n)).length)) := by
  constructor
  · exact fun h => ⟨h c tmp n (.here h2 hne), fun hsome d tmp' n' hd =>
      h d tmp' n' (.later h2 hne hsome hd)⟩
  · rintro ⟨hc, hrest⟩ d tmp' n' (- | ⟨-, -, hsome, hd⟩)
    · exact hc
    · exact hrest hsome d tmp' n' hd

theorem listIn_iff {c : Nat} (h2 : 2 ≤ c) (hne : c ≠ CHAIN_END) (tmp : Buf) (n : Nat) :
    ListIn S fs max c tmp n ↔ ClusterIn S fs c ∧
      ((parseDirCluster (fs.clusterInto c tmp) fs.bpc (max - n)).length ≠ 0 → FatIn S fs c ∧
        ListIn S fs max (fs.nextOf c) (fs.clusterInto c tmp)
          (n + (parseDirCluster (fs.clusterInto c tmp) fs.bpc (max - n)).length)) := by
  unfold ListIn
  rw [listAll_iff h2 hne, and_assoc, ← imp_and]

theorem after_listAll {A : Nat → Buf → Nat → Prop} (m : Dev → Nat) (tmp' : Buf)
    (log : List (Nat × Nat)) (c : Nat) (tmp : Buf) (n : Nat) :
    ListAll A (fs.after m tmp' log) max c tmp n ↔ ListAll A fs max c tmp n := by
  unfold ListAll
  rw [after_clusterInto]
  exact Iff.rfl

theorem after_listIn (m : Dev → Nat) (tmp' : Buf) (log : List (Nat × Nat)) (c : Nat) (tmp : Buf)
    (n : Nat) : ListIn S (fs.after m tmp' log) max c tmp n ↔ ListIn S fs max c tmp n := by
  unfold ListIn
  rw [after_listAll, after_clusterInto]
  exact Iff.rfl

theorem listLoop_succ {c : Nat} (hc : 2 ≤ c ∧ c ≠ CHAIN_END) {m m' : Dev → Nat} {tmp : Buf}
    {log log' : List (Nat × Nat)} {v : Nat}
    (hread : fs.readCluster c fs.tmp = (true, tmp, fs.after m fs.tmp log))
    (hnext : (fs.after m tmp log).nextCluster c = (v, fs.after m' tmp log')) (fuel : Nat)
    (out : List ExfatFileInfo) : listLoop max (fuel + 1) fs c out =
      if (parseDirCluster tmp fs.bpc (max - out.length)).length = 0 then (out, fs.after m tmp log)
      else listLoop max fuel (fs.after m' tmp log') v
        (out ++ parseDirCluster tmp fs.bpc (max - out.length)) := by
  rw [listLoop, if_pos hc, hread]
  change (if (parseDirCluster tmp fs.bpc (max - out.length)).length = 0 then
      (out, fs.after m tmp log)
    else listLoop max fuel ((fs.after m tmp log).nextCluster c).2 ((fs.after m tmp log).nextCluster c).1
      (out ++ parseDirCluster tmp fs.bpc (max - out.length))) = _
  rw [hnext]

end List

/-! ### Reading a file -/

/-- The driver after at most `n` rounds of the loop of `exfat_read_file`. -/
def readRounds : Nat → Exfat → Nat → Nat → Exfat
  | 0, fs, _, _ => fs
  | n + 1, fs, cluster, remaining =>
    if remaining = 0 ∨ cluster < 2 ∨ cluster = CHAIN_END then fs
    else
      match fs.readCluster cluster fs.tmp with
      | (false, tmp, fs) => { fs with tmp := tmp }
      | (true, tmp, fs) =>
        let fs := { fs with tmp := tmp }
        let chunk := min remaining fs.bpc
        let (next, fs) := fs.nextCluster cluster
        readRounds n fs next (remaining - chunk)

theorem readLoop_rounds {fuel : Nat} {fs : Exfat} {c remaining pos : Nat} {buf : Buf}
    {res : Int × Buf × Exfat} (h : readLoop fuel fs c remaining pos buf = some res) :
    readRounds fuel fs c remaining = res.2.2 := by
  induction fuel generalizing fs c remaining pos buf with
  | zero =>
    rw [readLoop] at h
    split at h
    · obtain rfl := Option.some.inj h
      rfl
    · cases h
  | succ fuel ih =>
    by_cases h0 : remaining = 0
    · rw [readLoop, if_pos h0] at h
      obtain rfl := Option.some.inj h
      exact if_pos (.inl h0)
    rw [readLoop, if_neg h0] at h
    dsimp only at h
    by_cases hbad : c < 2 ∨ c = CHAIN_END
    · rw [if_pos hbad] at h
      obtain rfl := Option.some.inj h
      exact if_pos (.inr hbad)
    rw [if_neg hbad] at h
    rw [readRounds, if_neg fun hstop => hstop.elim h0 hbad]
    obtain ⟨⟨ok, tmp, gs⟩, hread⟩ : ∃ r, fs.readCluster c fs.tmp = r := ⟨_, rfl⟩
    rw [hread] at h ⊢
    cases ok with
    | false =>
      obtain rfl := Option.some.inj h
      rfl
    | true =>
      have hchunk : (if remaining < gs.bpc then remaining else gs.bpc) = min remaining gs.bpc := by
        split <;> omega
      dsimp only at h ⊢
      rw [hchunk] at h
      exact ih h

/-- Reading `size` bytes from `c` on gets to the `k`-th cluster of the chain: so many bytes are
wanted, and the chain is not broken before. -/
def Reached (next : Nat → Nat) (bpc c size k : Nat) : Prop :=
  k * bpc < size ∧ ∀ i ≤ k, 2 ≤ next^[i] c ∧ next^[i] c ≠ CHAIN_END

/-- The clusters that the first `n` rounds of a read get to satisfy `A`. -/
def RoundsAll (A : Nat → Prop) (fs : Exfat) (n c size : Nat) : Prop :=
  ∀ k < n, Reached fs.nextOf fs.bpc c size k → A (fs.nextOf^[k] c)

/-- The sectors that the first `n` rounds of a read ask for are in `S`. -/
def RoundsIn (S : Nat → Prop) (fs : Exfat) (n c size : Nat) : Prop :=
  RoundsAll (fun d => ClusterIn S fs d ∧ FatIn S fs d) fs n c size

theorem reached_zero {next : Nat → Nat} {bpc c size : Nat} :
    Reached next bpc c size 0 ↔ size ≠ 0 ∧ 2 ≤ c ∧ c ≠ CHAIN_END := by
  constructor
  · exact fun h => ⟨by have := h.1; omega, h.2 0 (Nat.le_refl 0)⟩
  · rintro ⟨h0, hc⟩
    refine ⟨by omega, fun i hi => ?_⟩
    obtain rfl : i = 0 := by omega
    exact hc

theorem reached_succ {next : Nat → Nat} {bpc c size k : Nat} :
    Reached next bpc c size (k + 1) ↔
      (2 ≤ c ∧ c ≠ CHAIN_END) ∧ Reached next bpc (next c) (size - min size bpc) k := by
  have hsize : (k + 1) * bpc < size ↔ k * bpc < size - min size bpc := by
    rw [Nat.add_mul]
    omega
  constructor
  · intro h
    refine ⟨h.2 0 (by omega), hsize.mp h.1, fun i hi => ?_⟩
    exact h.2 (i + 1) (by omega)
  · rintro ⟨hc, hlt, hrest⟩
    refine ⟨hsize.mpr hlt, fun i hi => ?_⟩
    cases i with
    | zero => exact hc
    | succ i => exact hrest i (by omega)

section Rounds

variable {S : Nat → Prop} {fs : Exfat}

theorem roundsAll_succ {A : Nat → Prop} {n c size : Nat} (h0 : size ≠ 0)
    (hc : 2 ≤ c ∧ c ≠ CHAIN_END) : RoundsAll A fs (n + 1) c size ↔
      A c ∧ RoundsAll A fs n (fs.nextOf c) (size - min size fs.bpc) := by
  constructor
  · intro h
    exact ⟨h 0 (by omega) (reached_zero.mpr ⟨h0, hc⟩),
      fun k hk hreached => h (k + 1) (by omega) (reached_succ.mpr ⟨hc, hreached⟩)⟩
  · rintro ⟨hfirst, hrest⟩ k hk hreached
    cases k with
    | zero => exact hfirst
    | succ k => exact hrest k (by omega) (reached_succ.mp hreached).2

end Rounds

/-! ### Writing a file -/

end Exfat

theorem Disks.ideWriteSector_faults (ch dv : Nat) (d : Disks) (lba cnt : Nat) (buf : Buf) :
    ∃ ok m, d.ideWriteSector ch dv lba cnt buf = (ok, { d with media := m }) ∧
      m.faults = d.media.faults ∧ ((∀ n, d.media.faults (.ata ch dv) n = none) → ok = true) := by
  induction cnt generalizing d lba buf with
  | zero => exact ⟨true, d.media, rfl, rfl, fun _ => rfl⟩
  | succ cnt ih =>
    obtain ⟨m, hwrite, hfaults, -, -⟩ := d.media.write_effect (.ata ch dv) (lba28 lba) 1 buf
    rw [Disks.ideWriteSector, hwrite]
    cases hnow : (d.media.faults (.ata ch dv) (d.media.issued (.ata ch dv))).isNone with
    | false =>
      refine ⟨false, m, rfl, hfaults, fun h => ?_⟩
      rw [h] at hnow
      cases hnow
    | true =>
      obtain ⟨ok, m', hrun, hfaults', hok⟩ := ih { d with media := m } (lba + 1) (from_ buf 512)
      refine ⟨ok, m', hrun, hfaults'.trans hfaults, fun h => hok fun n => ?_⟩
      rw [hfaults]
      exact h n

namespace Exfat

section Write

variable {S : Nat → Prop} {fs : Exfat}

theorem withMedia_faultless {m : Media Dev} {log : List (Nat × Nat)}
    (hm : m.faults = fs.disks.media.faults) : (fs.withMedia m log).Faultless ↔ fs.Faultless :=
  forall_congr' fun n => withMedia_served hm n

theorem secWr_asks (lba cnt : Nat) (buf : Buf) :
    ∃ ok m, fs.secWr lba cnt buf = (ok, fs.withMedia m (fs.log ++ [(lba, cnt)])) ∧
      m.faults = fs.disks.media.faults ∧ (ok = true → fs.Passes cnt) ∧
      (fs.Faultless → fs.Passes cnt → ok = true) ∧
      Asks S fs (fs.withMedia m (fs.log ++ [(lba, cnt)]))
        (fs.Passes cnt → ∀ j < cnt, S (lba + j)) := by
  have hasks : ∀ m, Asks S fs (fs.withMedia m (fs.log ++ [(lba, cnt)]))
      (fs.Passes cnt → ∀ j < cnt, S (lba + j)) := fun _ => Adds.one (lba, cnt)
  unfold secWr
  dsimp only
  by_cases hr : fs.disks.ready = true
  · rw [if_pos hr]
    by_cases h8 : cnt > 8
    · rw [if_pos h8]
      exact ⟨false, fs.disks.media, rfl, rfl, fun h => absurd h Bool.false_ne_true,
        fun _ h => absurd ⟨hr, h8⟩ h, hasks _⟩
    · rw [if_neg h8]
      unfold Disks.nvmeWrite
      have hpass : fs.Passes cnt := fun h => h8 h.2
      by_cases hq : fs.disks.queues = true
      · obtain ⟨m, hwrite, hfaults, -, -⟩ := fs.disks.media.write_effect .nvme lba cnt buf
        dsimp only
        rw [if_pos (by rw [hr, hq]; rfl), hwrite]
        refine ⟨_, m, rfl, hfaults, fun _ => hpass, fun h _ => ?_, hasks m⟩
        rw [Option.isNone_iff_eq_none, ← dev_nvme hr]
        exact (h _).2
      · rw [if_neg (by simp [hq])]
        refine ⟨false, fs.disks.media, rfl, rfl, fun _ => hpass, fun h _ => ?_, hasks _⟩
        have := (h 0).1
        simp [online, hr, hq] at this
  · obtain ⟨ok, m, hrun, hfaults, hok⟩ :=
      Disks.ideWriteSector_faults fs.ch fs.dv fs.disks lba cnt buf
    rw [if_neg hr, hrun]
    refine ⟨ok, m, rfl, hfaults, fun _ h => hr h.1, fun h _ => hok fun n => ?_, hasks m⟩
    rw [← dev_ata hr]
    exact (h n).2

/-- The number of sectors in which the directory is written back. -/
def dirSectors (fs : Exfat) : Nat := if fs.bpc / 512 = 0 then 1 else fs.bpc / 512

/-- The sectors that step 5 asks for are in `S`; `rd` is the directory. -/
def EntryIn (S : Nat → Prop) (fs : Exfat) (rd : Buf) : Prop :=
  dirEnd rd fs.bpc fs.bpc 0 + 96 ≤ fs.bpc → fs.Passes fs.dirSectors →
    ∀ j < fs.dirSectors, S (fs.clusterToLba fs.boot.rootDirCluster + j)

/-- The sectors that the steps 3 to 5 ask for are in `S`. -/
def ChosenIn (S : Nat → Prop) (fs : Exfat) (rd : Buf) (bmCluster freeCluster size : Nat) : Prop :=
  (∀ j < (size + 511) / 512, S (wrap32 (fs.clusterToLba freeCluster + j))) ∧
    (fs.Passes fs.spc → (∀ j < fs.spc, S (fs.clusterToLba bmCluster + j)) ∧ EntryIn S fs rd)

/-- The sectors that writing a file of `size` bytes under a name of `len` characters asks for
are in `S`. -/
def WriteIn (S : Nat → Prop) (fs : Exfat) (len size : Nat) : Prop :=
  len ≠ 0 ∧ size ≤ fs.bpc →
    ClusterIn S fs fs.boot.rootDirCluster ∧
    let rd := fs.clusterInto fs.boot.rootDirCluster fs.stack
    let bmCluster := bitmapEntry rd fs.bpc fs.bpc 0
    bmCluster ≠ 0 →
      ClusterIn S fs bmCluster ∧
      let freeCluster := searchBitmap (fs.clusterInto bmCluster fs.stack) (fs.boot.clusterCount - 2) 2
      freeCluster ≠ 0 → ChosenIn S fs rd bmCluster freeCluster size

end Write

end Exfat

end WinDOS
