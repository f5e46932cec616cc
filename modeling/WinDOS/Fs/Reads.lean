import WinDOS.Fs.Exfat

/-!
# What reading does

Reading sectors and clusters changes the command counter, the log and `g_tmp` only. Whether a
read succeeds depends on the faults of the commands it issues, and what it delivers on the
contents of the addressed device.
-/

set_option autoImplicit false

namespace WinDOS

open Bytes

namespace Exfat

/-- The state with other command counters, cluster buffer and log. -/
def after (fs : Exfat) (issued : Dev → Nat) (tmp : Buf) (log : List (Nat × Nat)) : Exfat :=
  { fs with
    disks := { fs.disks with media := { fs.disks.media with issued := issued } }
    tmp := tmp
    log := log }

/-- The commands issued to the addressed device so far. -/
def issued (fs : Exfat) : Nat := fs.disks.media.issued fs.dev

/-- The command counters after `k` more commands to a device. -/
def bumpAt (fs : Exfat) (d : Dev) (k : Nat) : Dev → Nat :=
  Function.update fs.disks.media.issued d (fs.disks.media.issued d + k)

/-- The command counters after `k` more commands to the addressed device. -/
def bump (fs : Exfat) (k : Nat) : Dev → Nat := fs.bumpAt fs.dev k

/-- The addressed device takes commands. -/
def online (fs : Exfat) : Bool := !fs.disks.ready || fs.disks.queues

/-- A command issued as number `n` is carried out. -/
def served (fs : Exfat) (n : Nat) : Prop := fs.online = true ∧ fs.disks.media.faults fs.dev n = none

/-- How the addressed device takes a sector number. -/
def addr (fs : Exfat) (lba : Nat) : Nat := if fs.disks.ready then lba else lba28 lba

/-- The contents of a sector of the addressed device. -/
def sector (fs : Exfat) (lba : Nat) : Buf := fs.disks.media.sector fs.dev (fs.addr lba)

/-- The bytes from a sector on, with `u32` sector numbers. -/
def span (fs : Exfat) (lba : Nat) : Buf := fun j => fs.sector (wrap32 (lba + j / 512)) (j % 512)

def clusterBytes (fs : Exfat) (cluster : Nat) : Buf := fs.span (fs.clusterToLba cluster)

section After

variable (fs : Exfat) (n : Dev → Nat) (tmp : Buf) (log : List (Nat × Nat))

@[simp] theorem after_after (n' : Dev → Nat) (tmp' : Buf) (log' : List (Nat × Nat)) :
    (fs.after n tmp log).after n' tmp' log' = fs.after n' tmp' log' := rfl

@[simp] theorem after_self : fs.after (fs.bump 0) fs.tmp fs.log = fs := by
  rw [bump, bumpAt, Nat.add_zero, Function.update_eq_self]
  rfl

@[simp] theorem bump_dev (k : Nat) : fs.bump k fs.dev = fs.issued + k := Function.update_self ..

@[simp] theorem after_bump (j k : Nat) : (fs.after (fs.bump k) tmp log).bump j = fs.bump (k + j) := by
  change Function.update (fs.bump k) fs.dev (fs.bump k fs.dev + j) = _
  rw [bump_dev, bump, bumpAt, Function.update_idem, issued, Nat.add_assoc]
  rfl

@[simp] theorem after_issued : (fs.after n tmp log).issued = n fs.dev := rfl
@[simp] theorem after_dev : (fs.after n tmp log).dev = fs.dev := rfl
@[simp] theorem after_tmp : (fs.after n tmp log).tmp = tmp := rfl
@[simp] theorem after_log : (fs.after n tmp log).log = log := rfl
@[simp] theorem after_boot : (fs.after n tmp log).boot = fs.boot := rfl
@[simp] theorem after_ok : (fs.after n tmp log).ok = fs.ok := rfl
@[simp] theorem after_bps : (fs.after n tmp log).bps = fs.bps := rfl
@[simp] theorem after_spc : (fs.after n tmp log).spc = fs.spc := rfl
@[simp] theorem after_bpc : (fs.after n tmp log).bpc = fs.bpc := rfl
@[simp] theorem after_stack : (fs.after n tmp log).stack = fs.stack := rfl
@[simp] theorem after_online : (fs.after n tmp log).online = fs.online := rfl
@[simp] theorem after_served (k : Nat) : (fs.after n tmp log).served k = fs.served k := rfl
@[simp] theorem after_sector (lba : Nat) : (fs.after n tmp log).sector lba = fs.sector lba := rfl
@[simp] theorem after_span (lba : Nat) : (fs.after n tmp log).span lba = fs.span lba := rfl
@[simp] theorem after_fatLba (c : Nat) : (fs.after n tmp log).fatLba c = fs.fatLba c := rfl
@[simp] theorem after_clusterToLba (c : Nat) :
    (fs.after n tmp log).clusterToLba c = fs.clusterToLba c := rfl
@[simp] theorem after_clusterBytes (c : Nat) :
    (fs.after n tmp log).clusterBytes c = fs.clusterBytes c := rfl

end After

/-! ### Sectors -/

section Transport

variable {fs : Exfat}

theorem dev_nvme (hr : fs.disks.ready = true) : fs.dev = .nvme := if_pos hr

theorem dev_ata (hr : ¬ fs.disks.ready = true) : fs.dev = .ata fs.ch fs.dv := if_neg hr

theorem addr_nvme (hr : fs.disks.ready = true) (lba : Nat) : fs.addr lba = lba := if_pos hr

theorem addr_ata (hr : ¬ fs.disks.ready = true) (lba : Nat) : fs.addr lba = lba28 lba := if_neg hr

theorem secRd_served (h : fs.served fs.issued) (lba : Nat) (buf : Buf) (off : Nat) :
    fs.secRd lba 1 buf off = (true, blit buf off (fs.sector lba) 512,
      fs.after (fs.bump 1) fs.tmp (fs.log ++ [(lba, 1)])) := by
  obtain ⟨hon, hf⟩ := h
  unfold secRd
  dsimp only
  by_cases hr : fs.disks.ready = true
  · have hq : fs.disks.queues = true := by simpa [online, hr] using hon
    rw [if_pos hr, if_neg (by omega), sector, addr_nvme hr, Disks.nvmeRead,
      if_pos (by simp [hr, hq]), ← dev_nvme hr, Media.read_ok hf]
    rfl
  · rw [if_neg hr, sector, addr_ata hr, Disks.ideReadSector, ← dev_ata hr, Media.read_ok hf]
    rfl

theorem secRd_failed (h : ¬ fs.served fs.issued) (lba : Nat) (buf : Buf) (off : Nat) :
    ∃ n, fs.secRd lba 1 buf off = (false, buf, fs.after n fs.tmp (fs.log ++ [(lba, 1)])) := by
  unfold secRd
  dsimp only
  by_cases hr : fs.disks.ready = true
  · rw [if_pos hr, if_neg (by omega), Disks.nvmeRead]
    by_cases hq : fs.disks.queues = true
    · have hf : fs.disks.media.faults fs.dev (fs.disks.media.issued fs.dev) ≠ none := fun hf =>
        h ⟨by simp [online, hq], hf⟩
      rw [if_pos (by simp [hr, hq]), ← dev_nvme hr, Media.read_fail hf]
      exact ⟨_, rfl⟩
    · rw [if_neg (by simp [hq])]
      exact ⟨fs.disks.media.issued, rfl⟩
  · have hf : fs.disks.media.faults fs.dev (fs.disks.media.issued fs.dev) ≠ none := fun hf =>
      h ⟨by simp [online, hr], hf⟩
    rw [if_neg hr, Disks.ideReadSector, ← dev_ata hr, Media.read_fail hf]
    exact ⟨_, rfl⟩

end Transport

/-! ### Clusters -/

theorem readSectors_served {fs : Exfat} (hbps : fs.bps = 512) (lba : Nat) {n : Nat}
    (h : ∀ j < n, fs.served (fs.issued + j)) (i : Nat) (buf : Buf) :
    ∃ log, readSectors lba fs n i buf =
      (true, blit buf (i * 512) (from_ (fs.span lba) (i * 512)) (n * 512),
        fs.after (fs.bump n) fs.tmp log) := by
  induction n generalizing fs i buf with
  | zero => exact ⟨fs.log, by simp [readSectors]⟩
  | succ n ih =>
    have hnow : fs.served fs.issued := h 0 (by omega)
    rw [readSectors, secRd_served hnow]
    obtain ⟨log, hlog⟩ := @ih (fs.after (fs.bump 1) fs.tmp (fs.log ++ [(wrap32 (lba + i), 1)])) hbps (fun j hj => by
        rw [after_served, after_issued, bump_dev, Nat.add_assoc]
        exact h (1 + j) (by omega)) (i + 1) (blit buf (i * fs.bps) (fs.sector (wrap32 (lba + i))) 512)
    refine ⟨log, hlog.trans ?_⟩
    simp only [after_after, after_bump, after_tmp, after_span, hbps]
    have hfirst : blit buf (i * 512) (fs.sector (wrap32 (lba + i))) 512 =
        blit buf (i * 512) (from_ (fs.span lba) (i * 512)) 512 := by
      refine blit_congr fun j hj => ?_
      rw [from_, span, show (i * 512 + j) / 512 = i by omega, show (i * 512 + j) % 512 = j by omega]
    have hrest : from_ (fs.span lba) ((i + 1) * 512) = from_ (from_ (fs.span lba) (i * 512)) 512 := by
      funext j
      rw [from_, from_, from_, show (i + 1) * 512 + j = i * 512 + (512 + j) by omega]
    rw [hfirst, hrest, show (i + 1) * 512 = i * 512 + 512 by omega, blit_blit,
      Nat.add_comm 1 n,
      show 512 + n * 512 = (n + 1) * 512 by omega]

theorem readSectors_failed {fs : Exfat} (lba : Nat) {n : Nat}
    (h : ¬ ∀ j < n, fs.served (fs.issued + j)) (i : Nat) (buf : Buf) :
    ∃ buf' m log, readSectors lba fs n i buf = (false, buf', fs.after m fs.tmp log) := by
  induction n generalizing fs i buf with
  | zero => exact absurd (fun j hj => absurd hj (Nat.not_lt_zero j)) h
  | succ n ih =>
    rw [readSectors]
    by_cases hnow : fs.served fs.issued
    · rw [secRd_served hnow]
      obtain ⟨buf', m, log, hlog⟩ := @ih
        (fs.after (fs.bump 1) fs.tmp (fs.log ++ [(wrap32 (lba + i), 1)]))
        (fun hall => h fun j hj => by
          cases j with
          | zero => exact hnow
          | succ j =>
            have := hall j (by omega)
            rw [after_served, after_issued, bump_dev] at this
            rwa [show fs.issued + (j + 1) = fs.issued + 1 + j by omega]) (i + 1)
        (blit buf (i * fs.bps) (fs.sector (wrap32 (lba + i))) 512)
      exact ⟨buf', m, log, hlog⟩
    · obtain ⟨m, hm⟩ := secRd_failed hnow (wrap32 (lba + i)) buf (i * fs.bps)
      rw [hm]
      exact ⟨buf, m, _, rfl⟩

theorem readCluster_served {fs : Exfat} (hbps : fs.bps = 512)
    (h : ∀ j < fs.spc, fs.served (fs.issued + j)) (cluster : Nat) (buf : Buf) :
    ∃ log, fs.readCluster cluster buf =
      (true, blit buf 0 (fs.clusterBytes cluster) (fs.spc * 512),
        fs.after (fs.bump fs.spc) fs.tmp log) := by
  obtain ⟨log, hlog⟩ := readSectors_served hbps (fs.clusterToLba cluster) h 0 buf
  refine ⟨log, hlog.trans ?_⟩
  have : from_ (fs.span (fs.clusterToLba cluster)) (0 * 512) = fs.clusterBytes cluster := by
    funext j
    rw [from_, Nat.zero_mul, Nat.zero_add]
    rfl
  rw [this, Nat.zero_mul]

theorem readCluster_failed {fs : Exfat} (h : ¬ ∀ j < fs.spc, fs.served (fs.issued + j))
    (cluster : Nat) (buf : Buf) :
    ∃ buf' m log, fs.readCluster cluster buf = (false, buf', fs.after m fs.tmp log) :=
  readSectors_failed _ h 0 buf

/-! ### The FAT -/

/-- The entry of a cluster in the FAT. -/
def fatEntry (fs : Exfat) (cluster : Nat) : Nat :=
  le (fs.sector (fs.fatLba cluster)) (cluster * 4 % 512) 4

theorem nextCluster_served {fs : Exfat} (hbps : fs.bps = 512) (hfat : 0 < fs.boot.fatLength)
    (h : fs.served fs.issued) (cluster : Nat) :
    ∃ log, fs.nextCluster cluster =
      (fs.fatEntry cluster, fs.after (fs.bump 1) fs.tmp log) := by
  refine ⟨fs.log ++ [(fs.fatLba cluster, 1)], ?_⟩
  rw [nextCluster, if_pos hfat, secRd_served h]
  refine Prod.ext ?_ rfl
  change le (blit fs.stack 0 (fs.sector (fs.fatLba cluster)) 512) (cluster * 4 % fs.bps) 4 = _
  rw [hbps, fatEntry]
  refine le_congr fun i h0 h1 => ?_
  rw [blit_in (by omega) (by omega), Nat.sub_zero]

end Exfat

end WinDOS
