import WinDOS.Fs.NoFatChain

/-!
# Reading a file while sector reads fail

`exfat_read_file` on a volume with 512-byte sectors, for every content of the disk and every
pattern of faults. Which command fails is told by its number, so the clusters the loop goes
through are known from the first one and the number of the first command.
-/

set_option autoImplicit false

namespace WinDOS

open Bytes

namespace Exfat

/-! ### The sequence of clusters -/

/-- The clusters that `size` bytes take. -/
def clustersOf (fs : Exfat) (size : Nat) : Nat := (size + fs.bpc - 1) / fs.bpc

/-- The commands of a round of the loop: a cluster and, on a volume with a FAT, its entry. -/
def roundCommands (fs : Exfat) : Nat := fs.spc + if fs.boot.fatLength > 0 then 1 else 0

instance (fs : Exfat) (n : Nat) : Decidable (fs.served n) := inferInstanceAs (Decidable (_ ∧ _))

/-- What `next_cluster` returns if its command is number `n`. -/
def nextAt (fs : Exfat) (n c : Nat) : Nat :=
  if fs.boot.fatLength > 0 then
    if fs.served n then fs.fatEntry c else CHAIN_END
  else wrap32 (c + 1)

/-- The sequence `c`, `next_cluster(c)` and so on, from command number `n` on. -/
def clusterSeq (fs : Exfat) : Nat → Nat → Nat → Nat
  | _, c, 0 => c
  | n, c, k + 1 => fs.clusterSeq (n + fs.roundCommands) (fs.nextAt (n + fs.spc) c) k

/-- The `k`-th cluster of the sequence is one, and it is read without error. -/
def ReadsAt (fs : Exfat) (n c k : Nat) : Prop :=
  2 ≤ fs.clusterSeq n c k ∧ fs.clusterSeq n c k ≠ CHAIN_END ∧
    ∀ j < fs.spc, fs.served (n + k * fs.roundCommands + j)

def seqBytes (fs : Exfat) (n c : Nat) : Buf := fs.chainBytes (fs.clusterSeq n c)

def clusterRequests (fs : Exfat) (c : Nat) : List (Nat × Nat) :=
  (List.range fs.spc).map fun j => (wrap32 (fs.clusterToLba c + j), 1)

def fatRequests (fs : Exfat) (c : Nat) : List (Nat × Nat) :=
  if fs.boot.fatLength > 0 then [(fs.fatLba c, 1)] else []

/-- What `m` rounds ask of the block layer: each one cluster and its entry in the FAT. -/
def roundsRequests (fs : Exfat) (n c m : Nat) : List (Nat × Nat) :=
  (List.range m).flatMap fun k =>
    fs.clusterRequests (fs.clusterSeq n c k) ++ fs.fatRequests (fs.clusterSeq n c k)

section After

variable (fs : Exfat) (m : Dev → Nat) (tmp : Buf) (log : List (Nat × Nat))

@[simp] theorem after_clustersOf (size : Nat) :
    (fs.after m tmp log).clustersOf size = fs.clustersOf size := rfl

@[simp] theorem after_clusterSeq (n c k : Nat) :
    (fs.after m tmp log).clusterSeq n c k = fs.clusterSeq n c k := by
  induction k generalizing n c with
  | zero => rfl
  | succ k ih => exact ih _ _

@[simp] theorem after_readsAt (n c k : Nat) :
    (fs.after m tmp log).ReadsAt n c k ↔ fs.ReadsAt n c k := by
  unfold ReadsAt
  rw [after_clusterSeq]
  rfl

@[simp] theorem after_seqBytes (n c : Nat) : (fs.after m tmp log).seqBytes n c = fs.seqBytes n c := by
  unfold seqBytes
  rw [show (fs.after m tmp log).clusterSeq n c = fs.clusterSeq n c from
    funext fun k => fs.after_clusterSeq m tmp log n c k]
  rfl

@[simp] theorem after_roundsRequests (n c k : Nat) :
    (fs.after m tmp log).roundsRequests n c k = fs.roundsRequests n c k := by
  unfold roundsRequests
  simp only [after_clusterSeq]
  rfl

end After

theorem readsAt_succ {fs : Exfat} {n c k : Nat} :
    fs.ReadsAt n c (k + 1) ↔
      fs.ReadsAt (n + fs.roundCommands) (fs.nextAt (n + fs.spc) c) k := by
  unfold ReadsAt
  rw [show n + (k + 1) * fs.roundCommands = n + fs.roundCommands + k * fs.roundCommands by
    rw [Nat.add_mul, Nat.one_mul]; omega]
  rfl

theorem roundsRequests_succ (fs : Exfat) (n c m : Nat) :
    fs.roundsRequests n c (m + 1) = (fs.clusterRequests c ++ fs.fatRequests c) ++
      fs.roundsRequests (n + fs.roundCommands) (fs.nextAt (n + fs.spc) c) m := by
  unfold roundsRequests
  rw [List.range_succ_eq_map, List.flatMap_cons, List.flatMap_map]
  rfl

/-! ### One round -/

section Round

variable {fs : Exfat}

theorem secRd_log (lba cnt : Nat) (buf : Buf) (off : Nat) :
    (fs.secRd lba cnt buf off).2.2.log = fs.log ++ [(lba, cnt)] := by
  unfold secRd
  dsimp only
  split
  · split
    · rfl
    · split <;> rfl
  · rfl

/-- A cluster that cannot be read makes the loop of `read_cluster` stop early. -/
theorem readSectors_log (lba n i : Nat) (buf : Buf) :
    (readSectors lba fs n i buf).2.2.log <+:
        fs.log ++ (List.range n).map (fun j => (wrap32 (lba + (i + j)), 1)) ∧
      ((readSectors lba fs n i buf).1 = true → (readSectors lba fs n i buf).2.2.log =
        fs.log ++ (List.range n).map fun j => (wrap32 (lba + (i + j)), 1)) := by
  induction n generalizing fs i buf with
  | zero => exact ⟨by rw [List.range_zero, List.map_nil, List.append_nil]; exact List.prefix_rfl,
      fun _ => (List.append_nil fs.log).symm⟩
  | succ n ih =>
    have hlog := @secRd_log fs (wrap32 (lba + i)) 1 buf (i * fs.bps)
    have hreqs : (List.range (n + 1)).map (fun j => (wrap32 (lba + (i + j)), 1)) =
        (wrap32 (lba + i), 1) :: (List.range n).map (fun j => (wrap32 (lba + (i + 1 + j)), 1)) := by
      rw [List.range_succ_eq_map, List.map_cons, List.map_map, Nat.add_zero]
      refine congrArg _ (List.map_congr_left fun j _ => ?_)
      dsimp only [Function.comp]
      rw [show i + j.succ = i + 1 + j by omega]
    rw [hreqs, readSectors]
    obtain ⟨⟨ok, buf', gs⟩, hread⟩ : ∃ r, fs.secRd (wrap32 (lba + i)) 1 buf (i * fs.bps) = r :=
      ⟨_, rfl⟩
    rw [hread] at hlog ⊢
    dsimp only at hlog
    cases ok with
    | false =>
      refine ⟨?_, fun h => absurd h Bool.false_ne_true⟩
      dsimp only
      rw [hlog, List.prefix_append_right_inj]
      exact List.cons_prefix_cons.mpr ⟨rfl, List.nil_prefix⟩
    | true =>
      have hrest := @ih gs (i + 1) buf'
      rw [hlog, List.append_assoc] at hrest
      exact hrest

theorem readCluster_log (c : Nat) (buf : Buf) :
    (fs.readCluster c buf).2.2.log <+: fs.log ++ fs.clusterRequests c ∧
      ((fs.readCluster c buf).1 = true →
        (fs.readCluster c buf).2.2.log = fs.log ++ fs.clusterRequests c) := by
  have h := @readSectors_log fs (fs.clusterToLba c) fs.spc 0 buf
  simp only [Nat.zero_add] at h
  exact h

theorem secRd_failed_online (hon : fs.online = true) (h : ¬ fs.served fs.issued) (lba : Nat)
    (buf : Buf) (off : Nat) : fs.secRd lba 1 buf off =
      (false, buf, fs.after (fs.bump 1) fs.tmp (fs.log ++ [(lba, 1)])) := by
  have hf : fs.disks.media.faults fs.dev (fs.disks.media.issued fs.dev) ≠ none := fun hf =>
    h ⟨hon, hf⟩
  unfold secRd
  dsimp only
  by_cases hr : fs.disks.ready = true
  · have hq : fs.disks.queues = true := by simpa [online, hr] using hon
    rw [if_pos hr, if_neg (by omega), Disks.nvmeRead, if_pos (by rw [hr, hq]; rfl), ← dev_nvme hr,
      Media.read_fail hf]
    rfl
  · rw [if_neg hr, Disks.ideReadSector, ← dev_ata hr, Media.read_fail hf]
    rfl

theorem nextCluster_eq (hbps : fs.bps = 512) (hon : fs.online = true) (c : Nat) :
    fs.nextCluster c = (fs.nextAt fs.issued c,
      fs.after (fs.bump (if fs.boot.fatLength > 0 then 1 else 0)) fs.tmp
        (fs.log ++ fs.fatRequests c)) := by
  unfold nextAt fatRequests
  by_cases hfat : fs.boot.fatLength > 0
  · rw [if_pos hfat, if_pos hfat, if_pos hfat]
    by_cases hnow : fs.served fs.issued
    · obtain ⟨log, hnext⟩ := nextCluster_served hbps hfat hnow c
      have hlog : (fs.nextCluster c).2.log = fs.log ++ [(fs.fatLba c, 1)] := by
        rw [nextCluster, if_pos hfat, secRd_served hnow]
        rfl
      rw [hnext] at hlog ⊢
      rw [if_pos hnow, ← hlog]
      rfl
    · rw [nextCluster, if_pos hfat, secRd_failed_online hon hnow, if_neg hnow]
  · rw [nextCluster, if_neg hfat, if_neg hfat, if_neg hfat, if_neg hfat, List.append_nil,
      after_self]

end Round

/-! ### The loop -/

/-- How a read of `size` bytes from cluster `c` ends, the first command being number `n`: after
`good` clusters it has them all or fails at the next one. -/
structure ReadEnds (fs : Exfat) (n c size good : Nat) (code : Int) (log : List (Nat × Nat)) :
    Prop where
  done : ∀ k < good, fs.ReadsAt n c k
  ends : code = 0 ∧ good = fs.clustersOf size ∨
    code = -1 ∧ good < fs.clustersOf size ∧ ¬ fs.ReadsAt n c good
  asked : log <+: fs.log ++ fs.roundsRequests n c (fs.clustersOf size)

section Loop

variable {fs : Exfat} (hv : SectorVolume fs)
include hv

theorem SectorVolume.bpc_pos : 0 < fs.bpc := by
  have := hv.bpc
  have := hv.spc
  omega

theorem SectorVolume.lt_clustersOf {k size : Nat} : k < fs.clustersOf size ↔ k * fs.bpc < size := by
  have hbpc := hv.bpc_pos
  rw [clustersOf, ← Nat.succ_le_iff, Nat.le_div_iff_mul_le hbpc, Nat.succ_mul]
  omega

theorem SectorVolume.clustersOf_eq {size : Nat} (hsize : size ≠ 0) :
    fs.clustersOf size = fs.clustersOf (size - min size fs.bpc) + 1 := by
  refine eq_of_forall_lt_iff fun k => ?_
  rw [hv.lt_clustersOf]
  cases k with
  | zero => omega
  | succ k =>
    rw [Nat.add_lt_add_iff_right, hv.lt_clustersOf, Nat.succ_mul]
    omega

theorem SectorVolume.seqBytes_succ (n c : Nat) :
    fs.seqBytes (n + fs.roundCommands) (fs.nextAt (n + fs.spc) c) =
      from_ (fs.seqBytes n c) fs.bpc := by
  funext j
  unfold from_ seqBytes chainBytes
  rw [Nat.add_div_left _ hv.bpc_pos, Nat.add_mod_left]
  rfl

omit hv in
theorem blit_first {n c remaining pos good : Nat} {buf : Buf} :
    blit (blit buf pos (fs.clusterBytes c) (min remaining fs.bpc)) (pos + min remaining fs.bpc)
        (from_ (fs.seqBytes n c) fs.bpc) (min (remaining - min remaining fs.bpc) (good * fs.bpc)) =
      blit buf pos (fs.seqBytes n c) (min remaining ((good + 1) * fs.bpc)) := by
  have hfirst : blit buf pos (fs.clusterBytes c) (min remaining fs.bpc) =
      blit buf pos (fs.seqBytes n c) (min remaining fs.bpc) :=
    blit_congr fun j hj => by
      unfold seqBytes chainBytes
      rw [Nat.div_eq_of_lt (by omega), Nat.mod_eq_of_lt (by omega)]
      rfl
  rw [hfirst, Nat.succ_mul]
  by_cases hlast : remaining ≤ fs.bpc
  · rw [Nat.min_eq_left hlast, Nat.sub_self, Nat.zero_min, blit_zero, Nat.min_eq_left (by omega)]
  · rw [Nat.min_eq_right (by omega : fs.bpc ≤ remaining), blit_blit,
      show fs.bpc + min (remaining - fs.bpc) (good * fs.bpc) =
        min remaining (good * fs.bpc + fs.bpc) by omega]

theorem SectorVolume.after (m : Dev → Nat) (tmp : Buf) (log : List (Nat × Nat)) :
    SectorVolume (fs.after m tmp log) := ⟨hv.ok, hv.bps, hv.spc, hv.bpc⟩

theorem SectorVolume.readLoop_reads {c remaining : Nat} (hr : remaining ≠ 0)
    (hread : fs.ReadsAt fs.issued c 0) (fuel pos : Nat) (buf : Buf) :
    ∃ tmp, readLoop (fuel + 1) fs c remaining pos buf =
      readLoop fuel (fs.after (fs.bump fs.roundCommands) tmp
          (fs.log ++ (fs.clusterRequests c ++ fs.fatRequests c)))
        (fs.nextAt (fs.issued + fs.spc) c) (remaining - min remaining fs.bpc)
        (pos + min remaining fs.bpc)
        (blit buf pos (fs.clusterBytes c) (min remaining fs.bpc)) := by
  obtain ⟨h2, hne, hserved⟩ := hread
  have hserved : ∀ j < fs.spc, fs.served (fs.issued + j) := fun j hj => by
    have := hserved j hj
    rwa [Nat.zero_mul, Nat.add_zero] at this
  obtain ⟨log, hcluster⟩ := readCluster_served hv.bps hserved c fs.tmp
  have hlog := (@readCluster_log fs c fs.tmp).2 (by rw [hcluster])
  rw [hcluster] at hlog
  obtain rfl : log = fs.log ++ fs.clusterRequests c := hlog
  have hon : fs.online = true := (hserved 0 hv.spc).1
  have hchunk : (if remaining < fs.bpc then remaining else fs.bpc) = min remaining fs.bpc := by
    split <;> omega
  have hbytes : blit buf pos (blit fs.tmp 0 (fs.clusterBytes c) (fs.spc * 512))
      (min remaining fs.bpc) = blit buf pos (fs.clusterBytes c) (min remaining fs.bpc) :=
    blit_congr fun j hj => by
      have := hv.bpc
      rw [blit_in (by omega) (by omega), Nat.sub_zero]
  refine ⟨blit fs.tmp 0 (fs.clusterBytes c) (fs.spc * 512), ?_⟩
  rw [readLoop, if_neg hr]
  dsimp only
  rw [if_neg (fun h => h.elim (Nat.not_lt.mpr h2) hne), hcluster]
  dsimp only
  rw [after_bpc, hchunk, hbytes]
  have hnext := @nextCluster_eq (fs.after (fs.bump fs.spc)
    (blit fs.tmp 0 (fs.clusterBytes c) (fs.spc * 512)) (fs.log ++ fs.clusterRequests c)) hv.bps hon c
  rw [after_issued, bump_dev, after_bump, after_log, List.append_assoc] at hnext
  change readLoop fuel
    ((fs.after (fs.bump fs.spc) _ (fs.log ++ fs.clusterRequests c)).nextCluster c).2
    ((fs.after (fs.bump fs.spc) _ (fs.log ++ fs.clusterRequests c)).nextCluster c).1 _ _ _ = _
  rw [hnext]
  rfl

omit hv in
theorem readLoop_stops {c remaining : Nat} (hr : remaining ≠ 0)
    (hread : ¬ fs.ReadsAt fs.issued c 0) (fuel pos : Nat) (buf : Buf) :
    ∃ gs, readLoop (fuel + 1) fs c remaining pos buf = some (-1, buf, gs) ∧
      gs.log <+: fs.log ++ fs.clusterRequests c := by
  rw [readLoop, if_neg hr]
  dsimp only
  by_cases hbad : c < 2 ∨ c = CHAIN_END
  · rw [if_pos hbad]
    exact ⟨fs, rfl, List.prefix_append _ _⟩
  rw [if_neg hbad]
  have hfail : ¬ ∀ j < fs.spc, fs.served (fs.issued + j) := fun h => hread
    ⟨Nat.not_lt.mp fun h2 => hbad (.inl h2), fun hne => hbad (.inr hne), fun j hj => by
      rw [Nat.zero_mul, Nat.add_zero]
      exact h j hj⟩
  obtain ⟨tmp, m, log, hcluster⟩ := readCluster_failed hfail c fs.tmp
  have hlog := (@readCluster_log fs c fs.tmp).1
  rw [hcluster] at hlog ⊢
  exact ⟨_, rfl, hlog⟩

/-- A read delivers the clusters of the sequence up to the first that it cannot read. -/
theorem SectorVolume.readLoop_ends {fuel c remaining : Nat} (hfuel : remaining ≤ fuel) (pos : Nat)
    (buf : Buf) : ∃ good code gs,
      readLoop fuel fs c remaining pos buf = some (code,
        blit buf pos (fs.seqBytes fs.issued c) (min remaining (good * fs.bpc)), gs) ∧
      fs.ReadEnds fs.issued c remaining good code gs.log := by
  have hbpc := hv.bpc_pos
  induction fuel generalizing fs c remaining pos buf with
  | zero =>
    obtain rfl : remaining = 0 := by omega
    have hnone : fs.clustersOf 0 = 0 := Nat.div_eq_of_lt (by omega)
    refine ⟨0, 0, fs, ?_, fun k hk => absurd hk (by omega), .inl ⟨rfl, hnone.symm⟩,
      List.prefix_append _ _⟩
    rw [readLoop_done, Nat.zero_min, blit_zero]
  | succ fuel ih =>
    by_cases hr : remaining = 0
    · have hnone : fs.clustersOf remaining = 0 := by
        rw [hr]
        exact Nat.div_eq_of_lt (by omega)
      refine ⟨0, 0, fs, ?_, fun k hk => absurd hk (by omega), .inl ⟨rfl, hnone.symm⟩,
        List.prefix_append _ _⟩
      rw [hr, readLoop_done, Nat.zero_min, blit_zero]
    have hcount := hv.clustersOf_eq hr
    have hreqs := fs.roundsRequests_succ fs.issued c (fs.clustersOf (remaining - min remaining fs.bpc))
    rw [← hcount] at hreqs
    by_cases hread : fs.ReadsAt fs.issued c 0
    · obtain ⟨tmp, hround⟩ := hv.readLoop_reads hr hread fuel pos buf
      obtain ⟨good, code, gs, hrun, hdone, hends, hasked⟩ :=
        @ih (fs.after (fs.bump fs.roundCommands) tmp
            (fs.log ++ (fs.clusterRequests c ++ fs.fatRequests c)))
          (hv.after _ _ _) (fs.nextAt (fs.issued + fs.spc) c) (remaining - min remaining fs.bpc)
          (by omega) (pos + min remaining fs.bpc)
          (blit buf pos (fs.clusterBytes c) (min remaining fs.bpc)) hbpc
      simp only [after_issued, bump_dev, after_seqBytes, after_readsAt, after_clustersOf, after_bpc,
        after_log, after_roundsRequests] at hrun hdone hends hasked
      refine ⟨good + 1, code, gs, ?_, ?_, ?_, ?_⟩
      · rw [hround, hrun, hv.seqBytes_succ, blit_first]
      · intro k hk
        cases k with
        | zero => exact hread
        | succ k => exact readsAt_succ.mpr (hdone k (by omega))
      · rcases hends with ⟨h0, hall⟩ | ⟨h1, hlt, hnot⟩
        · exact .inl ⟨h0, by omega⟩
        · exact .inr ⟨h1, by omega, fun h => hnot (readsAt_succ.mp h)⟩
      · rw [hreqs, ← List.append_assoc]
        exact hasked
    · obtain ⟨gs, hrun, hlog⟩ := readLoop_stops hr hread fuel pos buf
      refine ⟨0, -1, gs, ?_, fun k hk => absurd hk (by omega), .inr ⟨rfl, by omega, hread⟩, ?_⟩
      · rw [hrun, Nat.zero_mul, Nat.min_zero, blit_zero]
      · rw [hreqs]
        refine hlog.trans ?_
        rw [List.append_assoc, ← List.append_assoc]
        exact List.prefix_append _ _

end Loop

/-- `exfat_read_file` succeeds exactly if it can read the clusters that `size` bytes take; it
delivers the bytes of the clusters before the first that it cannot read, and nothing behind
`size`. -/
theorem read_file_right {fs : Exfat} (hv : SectorVolume fs) (first size : Nat) (buf : Buf) :
    ∃ code buf' fs', fs.exfatReadFile first size buf = some (code, buf', fs') ∧
      (code = 0 ↔ ∀ k < fs.clustersOf size, fs.ReadsAt fs.issued first k) ∧
      (code = 0 → buf' = blit buf 0 (fs.seqBytes fs.issued first) size) ∧
      (code ≠ 0 → code = -1 ∧ ∃ k < fs.clustersOf size,
        (∀ i < k, fs.ReadsAt fs.issued first i) ∧ ¬ fs.ReadsAt fs.issued first k ∧
        buf' = blit buf 0 (fs.seqBytes fs.issued first) (k * fs.bpc)) ∧
      (∀ i, size ≤ i → buf' i = buf i) ∧
      fs'.log <+: fs.log ++ fs.roundsRequests fs.issued first (fs.clustersOf size) := by
  obtain ⟨good, code, gs, hrun, hdone, hends, hasked⟩ :=
    @SectorVolume.readLoop_ends fs hv size first size (Nat.le_refl size) 0 buf
  refine ⟨code, blit buf 0 (fs.seqBytes fs.issued first) (min size (good * fs.bpc)), gs, ?_, ?_, ?_,
    ?_, fun i hi => blit_above (by omega), hasked⟩
  · rw [exfatReadFile, if_pos hv.ok]
    exact hrun
  · rcases hends with ⟨rfl, rfl⟩ | ⟨rfl, hlt, hnot⟩
    · exact iff_of_true rfl hdone
    · exact iff_of_false (by decide) fun h => hnot (h good hlt)
  · rintro rfl
    rcases hends with ⟨-, rfl⟩ | ⟨h, -⟩
    · have hall : size ≤ fs.clustersOf size * fs.bpc :=
        Nat.not_lt.mp fun h => Nat.lt_irrefl _ (hv.lt_clustersOf.mpr h)
      rw [Nat.min_eq_left hall]
    · exact absurd h (by decide)
  · intro hcode
    rcases hends with ⟨h, -⟩ | ⟨rfl, hlt, hnot⟩
    · exact absurd h hcode
    · refine ⟨rfl, good, hlt, hdone, hnot, ?_⟩
      rw [Nat.min_eq_right (Nat.le_of_lt (hv.lt_clustersOf.mp hlt))]

theorem read_file_right_flaggedFile :
    ∃ code buf' fs', flaggedFile.exfatReadFile 6 600 (fun _ => 0) = some (code, buf', fs') ∧
      (code = 0 ↔ ∀ k < flaggedFile.clustersOf 600, flaggedFile.ReadsAt flaggedFile.issued 6 k) ∧
      (code = 0 → buf' = blit (fun _ => 0) 0 (flaggedFile.seqBytes flaggedFile.issued 6) 600) ∧
      (code ≠ 0 → code = -1 ∧ ∃ k < flaggedFile.clustersOf 600,
        (∀ i < k, flaggedFile.ReadsAt flaggedFile.issued 6 i) ∧
        ¬ flaggedFile.ReadsAt flaggedFile.issued 6 k ∧
        buf' = blit (fun _ => 0) 0 (flaggedFile.seqBytes flaggedFile.issued 6)
          (k * flaggedFile.bpc)) ∧
      (∀ i, 600 ≤ i → buf' i = 0) ∧
      fs'.log <+: flaggedFile.log ++
        flaggedFile.roundsRequests flaggedFile.issued 6 (flaggedFile.clustersOf 600) :=
  read_file_right flaggedFile_readVolume.toSectorVolume 6 600 fun _ => 0

end Exfat

end WinDOS
