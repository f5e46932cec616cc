import WinDOS.Fs.Mount
import WinDOS.Fs.Requests
import WinDOS.Fs.RoundTrip

/-!
# The buffers of a write

The bytes of the buffers of the root directory and of the bitmap that a call of
`exfat_write_file` uses, and those that `read_cluster` has stored there: 512 for each sector, at
steps of the sector size.
-/

set_option autoImplicit false

namespace WinDOS

open Bytes

namespace Exfat

/-- The search for the bitmap entry. -/
def scanIndices (rd : Buf) (bpc : Nat) : Nat → Nat → List Nat
  | 0, _ => []
  | fuel + 1, o =>
    if o < bpc then
      if rd o = EXFAT_BITMAP then o :: (List.range 4).map (o + 20 + ·)
      else if rd o = EXFAT_EOD then [o]
      else o :: scanIndices rd bpc fuel (o + 32)
    else []

/-- The search for a clear bit: the bytes of the bitmap that it tests. -/
def testIndices (bm : Buf) : Nat → Nat → List Nat
  | 0, _ => []
  | n + 1, cc =>
    cc / 8 :: if bm (cc / 8) &&& (1#8 <<< (cc % 8)) = 0 then [] else testIndices bm n (cc + 1)

/-- The search for the end of the directory: the entry is read before its offset is compared. -/
def endIndices (rd : Buf) (bpc : Nat) : Nat → Nat → List Nat
  | 0, _ => []
  | fuel + 1, off =>
    off :: if rd off ≠ EXFAT_EOD ∧ off < bpc then endIndices rd bpc fuel (off + 32) else []

/-- The entry set of a file whose name has `nlen` characters. -/
def putIndices (off nlen : Nat) : List Nat :=
  [off, off + 2, off + 32, off + 32 + 3] ++ (List.range 8).map (off + 32 + 8 + ·) ++
    (List.range 4).map (off + 32 + 20 + ·) ++ (List.range 8).map (off + 32 + 24 + ·) ++ [off + 64] ++
    (List.range nlen).flatMap (fun i => [off + 64 + 2 + i * 2, off + 64 + 2 + i * 2 + 1]) ++
    [off + 96]

/-- Step 5, if it is reached. The last list is what `sec_wr` takes out of the buffer. -/
def entryIndices (rd : Buf) (bpc nlen : Nat) : List Nat :=
  endIndices rd bpc (bpc + 1) 0 ++
    if dirEnd rd bpc bpc 0 + 96 > bpc then []
    else
      putIndices (dirEnd rd bpc bpc 0) nlen ++
        List.range ((if bpc / 512 = 0 then 1 else bpc / 512) * 512)

/-- How many sectors the loop of `read_cluster` stores: it ends at the first that is not served. -/
def storedSectors (lba : Nat) : Exfat → Nat → Nat → Buf → Nat
  | _, 0, _, _ => 0
  | fs, n + 1, i, buf =>
    match fs.secRd (wrap32 (lba + i)) 1 buf (i * fs.bps) with
    | (false, _, _) => 0
    | (true, buf, fs) => storedSectors lba fs n (i + 1) buf + 1

/-- The bytes of `n` sectors of a cluster in its buffer. -/
def sectorIndices (bps n : Nat) : List Nat :=
  (List.range n).flatMap fun k => (List.range 512).map (k * bps + ·)

def storedIndices (fs : Exfat) (cluster : Nat) (buf : Buf) : List Nat :=
  sectorIndices fs.bps (storedSectors (fs.clusterToLba cluster) fs fs.spc 0 buf)

/-- The bytes of `rd_buf` and `bm` that `read_cluster` stores, those of `rd_buf` that the call uses,
and those of `bm` that it tests or sets. -/
structure BufferUse where
  rdStored : List Nat
  rdUsed : List Nat
  bmStored : List Nat
  bmUsed : List Nat

def writeIndices (fs : Exfat) (fname : List Byte) (data : Buf) (size : Nat) : BufferUse :=
  let bpc := fs.bpc
  let clusterCount := fs.boot.clusterCount
  if fs.ok then
    if nameLen fname = 0 ∨ size > bpc then ⟨[], [], [], []⟩
    else
      let rdStored := fs.storedIndices fs.boot.rootDirCluster fs.stack
      match fs.readCluster fs.boot.rootDirCluster fs.stack with
      | (false, _, _) => ⟨rdStored, [], [], []⟩
      | (true, rd, fs) =>
        let scan := scanIndices rd bpc bpc 0
        let bmCluster := bitmapEntry rd bpc bpc 0
        if bmCluster = 0 then ⟨rdStored, scan, [], []⟩
        else
          let bmStored := fs.storedIndices bmCluster fs.stack
          match fs.readCluster bmCluster fs.stack with
          | (false, _, _) => ⟨rdStored, scan, bmStored, []⟩
          | (true, bm, fs) =>
            let tests := testIndices bm (clusterCount - 2) 2
            let freeCluster := searchBitmap bm (clusterCount - 2) 2
            if freeCluster = 0 then ⟨rdStored, scan, bmStored, tests⟩
            else
              match writeData (fs.clusterToLba freeCluster) data size fs ((size + 511) / 512) 0 with
              | (code, _, fs) =>
                if code ≠ 0 then ⟨rdStored, scan, bmStored, tests⟩
                else
                  match fs.secWr (fs.clusterToLba bmCluster) fs.spc (setBit bm freeCluster) with
                  | (false, _) => ⟨rdStored, scan, bmStored, tests ++ [freeCluster / 8]⟩
                  | (true, _) =>
                    ⟨rdStored, scan ++ entryIndices rd bpc (nameLen fname), bmStored,
                      tests ++ [freeCluster / 8]⟩
  else ⟨[], [], [], []⟩

/-- Every byte stored is one of the `bpc` bytes of the cluster, and every byte used was stored. -/
structure BufferUse.Inside (u : BufferUse) (bpc : Nat) : Prop where
  rd : ∀ i ∈ u.rdStored, i < bpc
  bm : ∀ i ∈ u.bmStored, i < bpc
  rdUsed : ∀ i ∈ u.rdUsed, i ∈ u.rdStored
  bmUsed : ∀ i ∈ u.bmUsed, i ∈ u.bmStored

/-! ### The geometry of a mounted volume -/

/-- The sizes that a successful `exfat_init` leaves: powers of two, and a cluster that fits `g_tmp`
by its size modulo 2^32. -/
structure Sized (fs : Exfat) : Prop where
  bps : ∃ a, fs.bps = 2 ^ a
  spc : ∃ b, fs.spc = 2 ^ b
  bpc : fs.bpc = wrap32 (fs.bps * fs.spc)
  fits : fs.bpc ≤ TMP_SIZE

theorem exfatInit_sized {fs : Exfat} (h : fs.exfatInit.1 = 0) : Sized fs.exfatInit.2 := by
  obtain ⟨gs, boot, src, -, hfits, heq⟩ := exfatInit_freshlyLoaded h
  rw [heq]
  exact ⟨⟨_, rfl⟩, ⟨_, rfl⟩, rfl, of_decide_eq_true hfits⟩

namespace Sized

variable {fs : Exfat}

theorem spc_pos (hs : Sized fs) : 0 < fs.spc := by
  obtain ⟨b, hb⟩ := hs.spc
  exact hb ▸ Nat.two_pow_pos b

/-- The size of a cluster is right, or 2^32 divides it and the driver takes it for 0. -/
theorem bpc_cases (hs : Sized fs) : fs.bpc = fs.bps * fs.spc ∨ fs.bpc = 0 := by
  obtain ⟨a, ha⟩ := hs.bps
  obtain ⟨b, hb⟩ := hs.spc
  rw [hs.bpc, ha, hb, ← Nat.pow_add]
  by_cases hlarge : a + b < 32
  · exact .inl (Nat.mod_eq_of_lt (Nat.pow_lt_pow_right Nat.one_lt_two hlarge))
  · exact .inr (Nat.mod_eq_zero_of_dvd (Nat.pow_dvd_pow 2 (by omega)))

/-- If all sectors of a cluster are stored within its size, they have at least 512 bytes. -/
theorem of_stored (hs : Sized fs) (hin : ∀ k < fs.spc, k * fs.bps + 512 ≤ fs.bpc) :
    fs.bpc = fs.bps * fs.spc ∧ 512 ≤ fs.bps := by
  have hspc := hs.spc_pos
  have hlast := hin (fs.spc - 1) (by omega)
  have hbpc := hs.bpc_cases.resolve_right (by omega)
  have hsplit : fs.bps * fs.spc = (fs.spc - 1) * fs.bps + fs.bps := by
    rw [← Nat.succ_mul, Nat.mul_comm]
    congr 1
    omega
  exact ⟨hbpc, by omega⟩

/-- Larger sectors are multiples of 1024 bytes. -/
theorem larger (hs : Sized fs) (h0 : 512 ≤ fs.bps) (h1 : fs.bps ≠ 512) : 1024 ≤ fs.bps := by
  obtain ⟨a, ha⟩ := hs.bps
  rw [ha] at h0 h1 ⊢
  have h9 : 9 ≤ a := (Nat.pow_le_pow_iff_right Nat.one_lt_two).mp h0
  have hne : a ≠ 9 := by
    rintro rfl
    exact h1 rfl
  exact Nat.pow_le_pow_right Nat.two_pos (show 10 ≤ a by omega)

end Sized

/-! ### The bytes stored -/

theorem mem_sectorIndices {bps n i : Nat} :
    i ∈ sectorIndices bps n ↔ ∃ k < n, k * bps ≤ i ∧ i < k * bps + 512 := by
  unfold sectorIndices
  rw [List.mem_flatMap]
  refine exists_congr fun k => ?_
  rw [List.mem_range, List.mem_map]
  refine and_congr_right fun _ => ⟨?_, fun h => ⟨i - k * bps, List.mem_range.mpr (by omega), by omega⟩⟩
  rintro ⟨j, hj, rfl⟩
  rw [List.mem_range] at hj
  omega

theorem sectorIndices_lt_iff {bps n bpc : Nat} :
    (∀ i ∈ sectorIndices bps n, i < bpc) ↔ ∀ k < n, k * bps + 512 ≤ bpc := by
  constructor
  · intro h k hk
    have := h (k * bps + 511) (mem_sectorIndices.mpr ⟨k, hk, by omega, by omega⟩)
    omega
  · intro h i hi
    obtain ⟨k, hk, -, hlt⟩ := mem_sectorIndices.mp hi
    have := h k hk
    omega

/-- With sectors of 512 bytes everything is stored. -/
theorem mem_sectorIndices_512 {n i : Nat} : i ∈ sectorIndices 512 n ↔ i < 512 * n := by
  rw [mem_sectorIndices]
  constructor
  · rintro ⟨k, hk, h0, h1⟩
    omega
  · exact fun h => ⟨i / 512, by omega, by omega, by omega⟩

/-- With larger ones there is a gap after the first 512 bytes. -/
theorem mem_sectorIndices_larger {bps n : Nat} (hbps : 1024 ≤ bps) (hn : 0 < n) {i : Nat}
    (hi : i < 1024) : i ∈ sectorIndices bps n ↔ i < 512 := by
  rw [mem_sectorIndices]
  constructor
  · rintro ⟨k, -, h0, h1⟩
    rcases Nat.eq_zero_or_pos k with rfl | hk
    · omega
    · have := Nat.mul_le_mul hk hbps
      omega
  · exact fun h => ⟨0, hn, by omega, by omega⟩

theorem storedSectors_le (lba : Nat) (fs : Exfat) (n i : Nat) (buf : Buf) :
    storedSectors lba fs n i buf ≤ n := by
  induction n generalizing fs i buf with
  | zero => exact Nat.le_refl 0
  | succ n ih =>
    rw [storedSectors]
    split
    · exact Nat.zero_le _
    · exact Nat.succ_le_succ (ih _ _ _)

theorem storedSectors_read {lba : Nat} {fs fs' : Exfat} {n i : Nat} {buf buf' : Buf}
    (h : readSectors lba fs n i buf = (true, buf', fs')) : storedSectors lba fs n i buf = n := by
  induction n generalizing fs i buf with
  | zero => rfl
  | succ n ih =>
    rw [readSectors] at h
    rw [storedSectors]
    rcases hread : fs.secRd (wrap32 (lba + i)) 1 buf (i * fs.bps) with ⟨_ | _, buf1, fs1⟩
    · rw [hread] at h
      cases h
    · rw [hread] at h
      exact congrArg (· + 1) (ih h)

/-- A cluster that was read is stored to its last sector. -/
theorem storedIndices_read {fs fs' : Exfat} {c : Nat} {buf buf' : Buf}
    (h : fs.readCluster c buf = (true, buf', fs')) :
    fs.storedIndices c buf = sectorIndices fs.bps fs.spc := by
  unfold storedIndices
  rw [storedSectors_read h]

/-! ### When the bytes used are bytes stored -/

/-- The search for the bitmap entry ends in the first 512 bytes, if sectors are larger. -/
def ScanFits (rd : Buf) (bps : Nat) : Prop :=
  bps = 512 ∨ ∃ k < 16, rd (32 * k) = EXFAT_BITMAP ∨ rd (32 * k) = EXFAT_EOD

/-- The bitmap fits into its first `len` bytes, or one of the clusters it describes there is free. -/
def BitmapFits (bm : Buf) (len clusterCount : Nat) : Prop :=
  clusterCount ≤ 8 * len ∨ ∃ c, 2 ≤ c ∧ c < clusterCount ∧ c < 8 * len ∧ bit bm c = false

/-- The directory has an end mark, and behind it there is too little room for an entry set, or
enough for the set, the end mark that follows and the name. -/
def SetFits (rd : Buf) (bpc nlen : Nat) : Prop :=
  dirEnd rd bpc bpc 0 < bpc ∧
    (bpc < dirEnd rd bpc bpc 0 + 96 ∨
      dirEnd rd bpc bpc 0 + 96 < bpc ∧ dirEnd rd bpc bpc 0 + 65 + 2 * nlen < bpc)

section Indices

variable {rd bm : Buf} {bpc : Nat}

/-- The search looks at every entry up to the first that ends it. -/
theorem scanIndices_iff (P : Nat → Prop) (fuel : Nat) : ∀ k, bpc ≤ 32 * k + fuel →
    ((∀ i ∈ scanIndices rd bpc fuel (32 * k), P i) ↔
      ∀ m, k ≤ m → 32 * m < bpc →
        (∀ j, k ≤ j → j < m → rd (32 * j) ≠ EXFAT_BITMAP ∧ rd (32 * j) ≠ EXFAT_EOD) →
        P (32 * m) ∧ (rd (32 * m) = EXFAT_BITMAP → ∀ j < 4, P (32 * m + 20 + j))) := by
  induction fuel with
  | zero =>
    intro k hfuel
    exact iff_of_true (fun i hi => absurd hi List.not_mem_nil) fun m hm hlt => absurd hlt (by omega)
  | succ fuel ih =>
    intro k hfuel
    rw [scanIndices]
    by_cases hlt : 32 * k < bpc
    · rw [if_pos hlt]
      by_cases hbm : rd (32 * k) = EXFAT_BITMAP
      · rw [if_pos hbm, List.forall_mem_cons, List.forall_mem_map]
        constructor
        · rintro ⟨hself, hfour⟩ m hm _ hbefore
          rcases Nat.eq_or_lt_of_le hm with rfl | hkm
          · exact ⟨hself, fun _ j hj => hfour j (List.mem_range.mpr hj)⟩
          · exact absurd hbm (hbefore k le_rfl hkm).1
        · intro hall
          obtain ⟨hself, hfour⟩ := hall k le_rfl hlt fun j h0 h1 => absurd h1 (by omega)
          exact ⟨hself, fun j hj => hfour hbm j (List.mem_range.mp hj)⟩
      · rw [if_neg hbm]
        by_cases hend : rd (32 * k) = EXFAT_EOD
        · rw [if_pos hend, List.forall_mem_singleton]
          constructor
          · intro hself m hm _ hbefore
            rcases Nat.eq_or_lt_of_le hm with rfl | hkm
            · exact ⟨hself, fun h => absurd h hbm⟩
            · exact absurd hend (hbefore k le_rfl hkm).2
          · exact fun hall => (hall k le_rfl hlt fun j h0 h1 => absurd h1 (by omega)).1
        · rw [if_neg hend, List.forall_mem_cons]
          have hnext := ih (k + 1) (by omega)
          rw [Nat.mul_add, Nat.mul_one] at hnext
          rw [hnext]
          constructor
          · rintro ⟨hself, hall⟩ m hm hlt' hbefore
            rcases Nat.eq_or_lt_of_le hm with rfl | hkm
            · exact ⟨hself, fun h => absurd h hbm⟩
            · exact hall m hkm hlt' fun j h0 h1 => hbefore j (by omega) h1
          · intro hall
            refine ⟨(hall k le_rfl hlt fun j h0 h1 => absurd h1 (by omega)).1,
              fun m hm hlt' hbefore => hall m (by omega) hlt' fun j h0 h1 => ?_⟩
            rcases Nat.eq_or_lt_of_le h0 with rfl | hkj
            · exact ⟨hbm, hend⟩
            · exact hbefore j hkj h1
    · rw [if_neg hlt]
      exact iff_of_true (fun i hi => absurd hi List.not_mem_nil)
        fun m hm hlt' => absurd hlt' (by omega)

theorem testIndices_iff (n : Nat) : ∀ cc, (∀ i ∈ testIndices bm n cc, i < bpc) ↔
    (n = 0 ∨ cc + n ≤ 8 * bpc ∨ ∃ c, cc ≤ c ∧ c < cc + n ∧ c < 8 * bpc ∧ bit bm c = false) := by
  induction n with
  | zero => exact fun cc => iff_of_true (fun i hi => absurd hi List.not_mem_nil) (.inl rfl)
  | succ n ih =>
    intro cc
    rw [testIndices, List.forall_mem_cons]
    by_cases hbit : bm (cc / 8) &&& (1#8 <<< (cc % 8)) = 0
    · have hclear := (and_mask_eq_zero_iff bm cc).mp hbit
      rw [if_pos hbit]
      constructor
      · rintro ⟨hlt, -⟩
        exact .inr (.inr ⟨cc, le_rfl, by omega, by omega, hclear⟩)
      · rintro (h | h | ⟨c, h0, h1, h2, -⟩)
        · cases h
        · exact ⟨by omega, fun i hi => absurd hi List.not_mem_nil⟩
        · exact ⟨by omega, fun i hi => absurd hi List.not_mem_nil⟩
    · have hset : bit bm cc ≠ false := fun h => hbit ((and_mask_eq_zero_iff bm cc).mpr h)
      rw [if_neg hbit, ih (cc + 1)]
      constructor
      · rintro ⟨hlt, h | h | ⟨c, h0, h1, h2, h3⟩⟩
        · exact .inr (.inl (by omega))
        · exact .inr (.inl (by omega))
        · exact .inr (.inr ⟨c, by omega, by omega, h2, h3⟩)
      · rintro (h | h | ⟨c, h0, h1, h2, h3⟩)
        · cases h
        · exact ⟨by omega, .inr (.inl (by omega))⟩
        · have hne : c ≠ cc := fun h => hset (h ▸ h3)
          exact ⟨by omega, .inr (.inr ⟨c, by omega, by omega, h2, h3⟩)⟩

/-- The byte whose bit is set was tested before. -/
theorem mem_testIndices (n : Nat) : ∀ cc, 0 < cc → searchBitmap bm n cc ≠ 0 →
    searchBitmap bm n cc / 8 ∈ testIndices bm n cc := by
  induction n with
  | zero => exact fun _ _ h => absurd rfl h
  | succ n ih =>
    intro cc hcc h
    rw [searchBitmap] at h ⊢
    rw [testIndices]
    by_cases hbit : bm (cc / 8) &&& (1#8 <<< (cc % 8)) = 0
    · rw [if_pos hbit, if_pos hbit]
      exact List.mem_cons_self
    · rw [if_neg hbit] at h ⊢
      rw [if_neg hbit]
      exact List.mem_cons_of_mem _ (ih (cc + 1) (Nat.succ_pos cc) h)

/-- The bytes tested lie without a gap. -/
theorem testIndices_between (n : Nat) : ∀ cc, ∀ i ∈ testIndices bm n cc, ∀ m, cc / 8 ≤ m → m ≤ i →
    m ∈ testIndices bm n cc := by
  induction n with
  | zero => exact fun _ i hi => absurd hi List.not_mem_nil
  | succ n ih =>
    intro cc i hi m h0 h1
    rw [testIndices] at hi ⊢
    rcases Nat.eq_or_lt_of_le h0 with rfl | hlt
    · exact List.mem_cons_self
    · rcases List.mem_cons.mp hi with rfl | hi
      · omega
      · split at hi
        · exact absurd hi List.not_mem_nil
        · rename_i hbit
          rw [if_neg hbit]
          exact List.mem_cons_of_mem _ (ih (cc + 1) i hi m (by omega) h1)

/-- The search reads beyond the cluster exactly if it finds no end mark in it. -/
theorem endIndices_iff (fuel : Nat) : ∀ off, bpc ≤ off + fuel →
    ((∀ i ∈ endIndices rd bpc (fuel + 1) off, i < bpc) ↔ dirEnd rd bpc fuel off < bpc) := by
  induction fuel with
  | zero =>
    intro off hfuel
    rw [endIndices, List.forall_mem_cons, dirEnd, if_neg fun h => absurd h.2 (by omega)]
    exact and_iff_left fun i hi => absurd hi List.not_mem_nil
  | succ fuel ih =>
    intro off hfuel
    rw [endIndices, List.forall_mem_cons, dirEnd]
    by_cases hmore : rd off ≠ EXFAT_EOD ∧ off < bpc
    · rw [if_pos hmore, if_pos hmore, and_iff_right hmore.2]
      exact ih (off + 32) (by omega)
    · rw [if_neg hmore, if_neg hmore]
      exact and_iff_left fun i hi => absurd hi List.not_mem_nil

/-- The search for the end has looked at every entry before it. -/
theorem mem_endIndices (fuel : Nat) : ∀ off m, off + 32 * m ≤ dirEnd rd bpc fuel off →
    off + 32 * m ∈ endIndices rd bpc (fuel + 1) off := by
  induction fuel with
  | zero =>
    intro off m h
    obtain rfl : m = 0 := by
      rw [dirEnd] at h
      omega
    exact List.mem_cons_self
  | succ fuel ih =>
    intro off m h
    rw [dirEnd] at h
    rw [endIndices]
    cases m with
    | zero => exact List.mem_cons_self
    | succ m =>
      by_cases hmore : rd off ≠ EXFAT_EOD ∧ off < bpc
      · rw [if_pos hmore] at h ⊢
        have hin := ih (off + 32) m (by omega)
        rw [show off + 32 + 32 * m = off + 32 * (m + 1) by omega] at hin
        exact List.mem_cons_of_mem _ hin
      · rw [if_neg hmore] at h
        omega

theorem putIndices_iff {off nlen : Nat} (hname : nlen ≠ 0) :
    (∀ i ∈ putIndices off nlen, i < bpc) ↔ off + 96 < bpc ∧ off + 65 + 2 * nlen < bpc := by
  unfold putIndices
  simp only [List.forall_mem_append, List.forall_mem_cons, List.forall_mem_map,
    List.forall_mem_flatMap, List.mem_range, List.not_mem_nil, false_imp_iff, implies_true, and_true]
  constructor
  · rintro ⟨⟨-, hchars⟩, hend⟩
    have hlast := (hchars (nlen - 1) (by omega)).2
    exact ⟨hend, by omega⟩
  · rintro ⟨hend, hlast⟩
    refine ⟨⟨⟨⟨⟨⟨?_, ?_⟩, ?_⟩, ?_⟩, ?_⟩, ?_⟩, hend⟩
    · omega
    · intro j hj
      omega
    · intro j hj
      omega
    · intro j hj
      omega
    · omega
    · intro j hj
      omega

theorem entryIndices_iff {nlen : Nat} (hname : nlen ≠ 0) (hpos : 0 < bpc) (hbpc : 512 ∣ bpc) :
    (∀ i ∈ entryIndices rd bpc nlen, i < bpc) ↔ SetFits rd bpc nlen := by
  unfold entryIndices SetFits
  rw [List.forall_mem_append, endIndices_iff bpc 0 (by omega)]
  refine and_congr_right fun _ => ?_
  by_cases hroom : dirEnd rd bpc bpc 0 + 96 > bpc
  · rw [if_pos hroom]
    exact iff_of_true (fun i hi => absurd hi List.not_mem_nil) (.inl hroom)
  · have hout : (if bpc / 512 = 0 then 1 else bpc / 512) * 512 = bpc := by
      rw [if_neg (by omega)]
      omega
    rw [if_neg hroom, List.forall_mem_append, putIndices_iff hname, hout]
    exact ⟨fun h => .inr h.1, fun h => ⟨h.resolve_left hroom, fun i hi => List.mem_range.mp hi⟩⟩

/-- From 1024 bytes on, the directory is searched or written beyond its first 512 bytes. -/
theorem mem_entryIndices {nlen : Nat} (hbpc : 1024 ≤ bpc) : 512 ∈ entryIndices rd bpc nlen := by
  unfold entryIndices
  by_cases hroom : dirEnd rd bpc bpc 0 + 96 > bpc
  · exact List.mem_append_left _ (mem_endIndices bpc 0 16 (by omega))
  · rw [if_neg hroom, if_neg (by omega)]
    exact List.mem_append_right _ (List.mem_append_right _ (List.mem_range.mpr (by omega)))

end Indices
/-! ### One cluster -/

/-- The bytes of a cluster's buffer that hold what was read, from the first on. -/
def wholeBytes (fs : Exfat) : Nat := if fs.bps = 512 then fs.bpc else 512

/-- A cluster that `read_cluster` has stored within its size. -/
structure ClusterStored (fs : Exfat) : Prop where
  sized : Sized fs
  bpc : fs.bpc = fs.bps * fs.spc
  bps : 512 ≤ fs.bps

namespace ClusterStored

variable {fs : Exfat} (h : ClusterStored fs)
include h

/-- Either every byte is stored, or there is a gap after the first 512. -/
theorem cases : fs.bps = 512 ∧ 512 ∣ fs.bpc ∧ 0 < fs.bpc ∧ fs.wholeBytes = fs.bpc ∧
      (∀ i, i ∈ sectorIndices fs.bps fs.spc ↔ i < fs.bpc) ∨
    fs.bps ≠ 512 ∧ 1024 ≤ fs.bpc ∧ fs.wholeBytes = 512 ∧
      ∀ i < 1024, i ∈ sectorIndices fs.bps fs.spc ↔ i < 512 := by
  have hspc := h.sized.spc_pos
  unfold wholeBytes
  by_cases hbps : fs.bps = 512
  · rw [if_pos hbps]
    have hbpc : fs.bpc = 512 * fs.spc := hbps ▸ h.bpc
    refine .inl ⟨hbps, ⟨fs.spc, hbpc⟩, by omega, rfl, fun i => ?_⟩
    rw [hbps, hbpc]
    exact mem_sectorIndices_512
  · rw [if_neg hbps]
    have hlarge := h.sized.larger h.bps hbps
    refine .inr ⟨hbps, ?_, rfl, fun i hi => mem_sectorIndices_larger hlarge hspc hi⟩
    rw [h.bpc]
    exact hlarge.trans (Nat.le_mul_of_pos_right _ hspc)

variable {rd bm : Buf}

theorem scan_iff : (∀ i ∈ scanIndices rd fs.bpc fs.bpc 0, i ∈ sectorIndices fs.bps fs.spc) ↔
    ScanFits rd fs.bps := by
  refine (scanIndices_iff _ fs.bpc 0 (by omega)).trans ?_
  obtain ⟨hbps, ⟨m, hm⟩, -, -, hall⟩ | ⟨hbps, hlarge, -, hall⟩ := h.cases
  · refine iff_of_true (fun k _ hk _ => ?_) (.inl hbps)
    simp only [hall]
    exact ⟨hk, fun _ j hj => by omega⟩
  · constructor
    · intro hscan
      by_contra hno
      unfold ScanFits at hno
      push Not at hno
      have hgap := (hscan 16 (by omega) (by omega) fun j _ hj => hno.2 j hj).1
      exact absurd ((hall (32 * 16) (by omega)).mp hgap) (by omega)
    · rintro (hbps' | ⟨k, hk, hhit⟩) m - _ hbefore
      · exact absurd hbps' hbps
      · have hmk : m ≤ k := by
          by_contra hlt
          have hno := hbefore k (Nat.zero_le k) (by omega)
          exact hhit.elim hno.1 hno.2
        exact ⟨(hall _ (by omega)).mpr (by omega), fun _ j hj => (hall _ (by omega)).mpr (by omega)⟩

theorem tests_iff (clusterCount : Nat) :
    (∀ i ∈ testIndices bm (clusterCount - 2) 2, i ∈ sectorIndices fs.bps fs.spc) ↔
      BitmapFits bm fs.wholeBytes clusterCount := by
  have hlt : (∀ i ∈ testIndices bm (clusterCount - 2) 2, i < fs.wholeBytes) ↔
      BitmapFits bm fs.wholeBytes clusterCount := by
    have hpos : 0 < fs.wholeBytes := by
      obtain ⟨-, -, hpos, hlen, -⟩ | ⟨-, -, hlen, -⟩ := h.cases <;> omega
    rw [testIndices_iff, BitmapFits]
    constructor
    · rintro (h | h | ⟨c, h0, h1, h2, h3⟩)
      · exact .inl (by omega)
      · exact .inl (by omega)
      · exact .inr ⟨c, h0, by omega, h2, h3⟩
    · rintro (h | ⟨c, h0, h1, h2, h3⟩)
      · by_cases hfew : clusterCount ≤ 2
        · exact .inl (by omega)
        · exact .inr (.inl (by omega))
      · exact .inr (.inr ⟨c, h0, by omega, h2, h3⟩)
  rw [← hlt]
  obtain ⟨-, -, -, hlen, hall⟩ | ⟨-, -, hlen, hall⟩ := h.cases
  · rw [hlen]
    exact forall₂_congr fun i _ => hall i
  · rw [hlen]
    constructor
    · intro hin i hi
      by_contra hge
      -- the byte at the start of the gap is tested on the way
      have hgap := hin 512 (testIndices_between _ 2 i hi 512 (by omega) (by omega))
      exact absurd ((hall 512 (by omega)).mp hgap) (by omega)
    · intro hin i hi
      have := hin i hi
      exact (hall i (by omega)).mpr this

theorem chosen_iff {clusterCount : Nat} (hc : searchBitmap bm (clusterCount - 2) 2 ≠ 0) :
    (∀ i ∈ testIndices bm (clusterCount - 2) 2 ++ [searchBitmap bm (clusterCount - 2) 2 / 8],
        i ∈ sectorIndices fs.bps fs.spc) ↔ BitmapFits bm fs.wholeBytes clusterCount := by
  rw [List.forall_mem_append, List.forall_mem_singleton, ← h.tests_iff]
  exact and_iff_left_of_imp fun hin => hin _ (mem_testIndices _ 2 Nat.two_pos hc)

theorem entry_iff {nlen : Nat} (hname : nlen ≠ 0) :
    (∀ i ∈ entryIndices rd fs.bpc nlen, i ∈ sectorIndices fs.bps fs.spc) ↔
      fs.bps = 512 ∧ SetFits rd fs.bpc nlen := by
  obtain ⟨hbps, hdvd, hpos, -, hall⟩ | ⟨hbps, hlarge, -, hall⟩ := h.cases
  · rw [← entryIndices_iff hname hpos hdvd, and_iff_right hbps]
    exact forall₂_congr fun i _ => hall i
  · refine iff_of_false (fun hin => ?_) fun hfits => hbps hfits.1
    exact absurd ((hall 512 (by omega)).mp (hin 512 (mem_entryIndices hlarge))) (by omega)

end ClusterStored

/-! ### Calls -/

def InBuffers (fs : Exfat) (fname : List Byte) (data : Buf) (size : Nat) : Prop :=
  (fs.writeIndices fname data size).Inside fs.bpc

/-- What the buffers must hold at each step that the call comes to. -/
def WriteFits (fs : Exfat) (fname : List Byte) (data : Buf) (size : Nat) : Prop :=
  (∀ k < storedSectors (fs.clusterToLba fs.boot.rootDirCluster) fs fs.spc 0 fs.stack,
    k * fs.bps + 512 ≤ fs.bpc) ∧
  ∀ rd fs₁, fs.readCluster fs.boot.rootDirCluster fs.stack = (true, rd, fs₁) →
    ScanFits rd fs.bps ∧
    ∀ b, b = bitmapEntry rd fs.bpc fs.bpc 0 → b ≠ 0 →
      ∀ bm fs₂, fs₁.readCluster b fs₁.stack = (true, bm, fs₂) →
        BitmapFits bm fs.wholeBytes fs.boot.clusterCount ∧
        ∀ c, c = searchBitmap bm (fs.boot.clusterCount - 2) 2 → c ≠ 0 →
          ∀ lbas fs₃, writeData (fs₂.clusterToLba c) data size fs₂ ((size + 511) / 512) 0 =
              (0, lbas, fs₃) →
            ∀ fs₄, fs₃.secWr (fs₃.clusterToLba b) fs₃.spc (setBit bm c) = (true, fs₄) →
              fs.bps = 512 ∧ SetFits rd fs.bpc (nameLen fname)

theorem inside_iff {u : BufferUse} {bpc : Nat} : u.Inside bpc ↔
    (∀ i ∈ u.rdStored, i < bpc) ∧ (∀ i ∈ u.bmStored, i < bpc) ∧
      (∀ i ∈ u.rdUsed, i ∈ u.rdStored) ∧ ∀ i ∈ u.bmUsed, i ∈ u.bmStored :=
  ⟨fun h => ⟨h.rd, h.bm, h.rdUsed, h.bmUsed⟩, fun ⟨h0, h1, h2, h3⟩ => ⟨h0, h1, h2, h3⟩⟩

section Call

variable {fs : Exfat} {rd bm : Buf}

theorem forall_of_eq {α β γ : Type} {t : α} {x : β} {y : γ} {P : β → γ → Prop} :
    (∀ a b, (t, x, y) = (t, a, b) → P a b) ↔ P x y := by
  constructor
  · exact fun h => h x y rfl
  · rintro h a b heq
    obtain ⟨-, heq⟩ := Prod.mk.inj heq
    obtain ⟨rfl, rfl⟩ := Prod.mk.inj heq
    exact h

theorem forall_of_ne {α β γ : Type} {t t' : α} (hne : t ≠ t') {x : β} {y : γ} {P : β → γ → Prop} :
    ∀ a b, (t, x, y) = (t', a, b) → P a b :=
  fun _ _ heq => absurd (congrArg Prod.fst heq) hne

/-- Reading a cluster keeps the geometry, and stores the next one in the same places. -/
theorem readCluster_sizes {c : Nat} {buf : Buf} {ok : Bool} {fs₁ : Exfat}
    (h : fs.readCluster c buf = (ok, rd, fs₁)) : fs₁.bps = fs.bps ∧ fs₁.spc = fs.spc := by
  obtain ⟨ok', buf', m, log, hrun, -⟩ := @readCluster_asks (fun _ => True) fs c buf
  rw [hrun] at h
  cases h
  exact ⟨rfl, rfl⟩

theorem storedIndices_inside {fs₁ : Exfat} (hbps : fs₁.bps = fs.bps) (hspc : fs₁.spc = fs.spc)
    (hin : ∀ k < fs.spc, k * fs.bps + 512 ≤ fs.bpc) (c : Nat) (buf : Buf) :
    ∀ i ∈ fs₁.storedIndices c buf, i < fs.bpc := by
  refine sectorIndices_lt_iff.mpr fun k hk => ?_
  have := storedSectors_le (fs₁.clusterToLba c) fs₁ fs₁.spc 0 buf
  rw [hbps]
  exact hin k (by omega)

/-- Whatever else happens, the first cluster read is that of the root directory. -/
theorem writeIndices_rdStored (hok : fs.ok = true) {fname : List Byte} (hname : nameLen fname ≠ 0)
    (data : Buf) {size : Nat} (hsize : size ≤ fs.bpc) :
    (fs.writeIndices fname data size).rdStored =
      fs.storedIndices fs.boot.rootDirCluster fs.stack := by
  unfold writeIndices
  dsimp only
  rw [if_pos hok, if_neg (not_or.mpr ⟨hname, not_lt.mpr hsize⟩)]
  split
  · rfl
  split
  · rfl
  split
  · rfl
  split
  · rfl
  split
  · rfl
  split <;> rfl

/-- A call with a name and a size that are accepted uses bytes of the clusters it has read only,
exactly if each step it comes to finds what `WriteFits` says. -/
theorem write_in_buffers_iff (hs : Sized fs) (hok : fs.ok = true) {fname : List Byte}
    (hname : nameLen fname ≠ 0) (data : Buf) {size : Nat} (hsize : size ≤ fs.bpc) :
    fs.InBuffers fname data size ↔ fs.WriteFits fname data size := by
  unfold InBuffers
  rw [inside_iff, writeIndices_rdStored hok hname data hsize]
  have hroot := @sectorIndices_lt_iff fs.bps
    (storedSectors (fs.clusterToLba fs.boot.rootDirCluster) fs fs.spc 0 fs.stack) fs.bpc
  unfold WriteFits
  rw [← hroot]
  refine and_congr_right fun hin => ?_
  unfold writeIndices
  dsimp only
  rw [if_pos hok, if_neg (not_or.mpr ⟨hname, not_lt.mpr hsize⟩)]
  have hnil : ∀ (P : Nat → Prop), ∀ i ∈ ([] : List Nat), P i :=
    fun _ i hi => absurd hi List.not_mem_nil
  obtain ⟨⟨_ | _, rd, fs₁⟩, hread⟩ : ∃ r, fs.readCluster fs.boot.rootDirCluster fs.stack = r :=
    ⟨_, rfl⟩
  · rw [hread]
    exact iff_of_true ⟨hnil _, hnil _, hnil _⟩ (forall_of_ne Bool.false_ne_true)
  rw [hread, forall_of_eq, storedIndices_read hread]
  dsimp only
  have hsectors : ∀ k < fs.spc, k * fs.bps + 512 ≤ fs.bpc :=
    sectorIndices_lt_iff.mp (storedIndices_read hread ▸ hin)
  have hstored : ClusterStored fs :=
    ⟨hs, (hs.of_stored hsectors).1, (hs.of_stored hsectors).2⟩
  obtain ⟨hbps₁, hspc₁⟩ := readCluster_sizes hread
  have hbmIn := storedIndices_inside hbps₁ hspc₁ hsectors
  have hscan := @ClusterStored.scan_iff fs hstored rd
  simp only [forall_eq]
  generalize bitmapEntry rd fs.bpc fs.bpc 0 = bmCluster
  by_cases hbm : bmCluster = 0
  · rw [if_pos hbm]
    dsimp only
    rw [hscan]
    exact ⟨fun h => ⟨h.2.1, fun h0 => absurd hbm h0⟩, fun h => ⟨hnil _, h.1, hnil _⟩⟩
  rw [if_neg hbm, forall_prop_of_true hbm]
  obtain ⟨⟨_ | _, bm, fs₂⟩, hread₂⟩ : ∃ r, fs₁.readCluster bmCluster fs₁.stack = r := ⟨_, rfl⟩
  · rw [hread₂]
    dsimp only
    rw [hscan]
    exact ⟨fun h => ⟨h.2.1, forall_of_ne Bool.false_ne_true⟩,
      fun h => ⟨hbmIn _ _, h.1, hnil _⟩⟩
  rw [hread₂, forall_of_eq]
  dsimp only
  have hbmStored : fs₁.storedIndices bmCluster fs₁.stack = sectorIndices fs.bps fs.spc := by
    rw [storedIndices_read hread₂, hbps₁, hspc₁]
  have hinside := hbmStored ▸ hbmIn bmCluster fs₁.stack
  rw [hbmStored]
  have htests := @ClusterStored.tests_iff fs hstored bm fs.boot.clusterCount
  have hchosen := @ClusterStored.chosen_iff fs hstored bm fs.boot.clusterCount
  generalize searchBitmap bm (fs.boot.clusterCount - 2) 2 = c at hchosen ⊢
  by_cases hc : c = 0
  · rw [if_pos hc]
    dsimp only
    rw [hscan, htests, and_iff_right hinside]
    exact and_congr_right fun _ => (and_iff_left fun h => absurd hc h).symm
  rw [if_neg hc, forall_prop_of_true hc]
  obtain ⟨⟨code, lbas, fs₃⟩, hdata⟩ : ∃ r,
    writeData (fs₂.clusterToLba c) data size fs₂ ((size + 511) / 512) 0 = r := ⟨_, rfl⟩
  rw [hdata]
  dsimp only
  by_cases hcode : code = 0
  · rw [hcode, forall_of_eq, if_neg (not_not.mpr rfl)]
    obtain ⟨⟨_ | _, fs₄⟩, hwrite⟩ : ∃ r, fs₃.secWr (fs₃.clusterToLba bmCluster) fs₃.spc
      (setBit bm c) = r := ⟨_, rfl⟩
    · rw [hwrite]
      dsimp only
      rw [hscan, hchosen hc, and_iff_right hinside]
      refine and_congr_right fun _ => (and_iff_left fun _ h => ?_).symm
      exact absurd (congrArg Prod.fst h) Bool.false_ne_true
    · rw [hwrite]
      dsimp only
      rw [hchosen hc, and_iff_right hinside, List.forall_mem_append, hscan,
        hstored.entry_iff hname, and_assoc]
      refine and_congr_right fun _ => and_comm.trans (and_congr_right fun _ => ?_)
      exact ⟨fun h _ _ => h, fun h => h fs₄ rfl⟩
  · rw [if_pos hcode]
    dsimp only
    rw [hscan, htests, and_iff_right hinside]
    exact and_congr_right fun _ => (and_iff_left (forall_of_ne hcode)).symm

end Call

theorem sized_oneFile : Sized oneFile := ⟨⟨9, rfl⟩, ⟨0, rfl⟩, by decide, by decide⟩

theorem inBuffers_oneFile : oneFile.InBuffers [0x41] (fun _ => 0x41) 1 := by
  have hrd : (oneFile.writeIndices [0x41] (fun _ => 0x41) 1).rdStored = sectorIndices 512 1 := by
    decide +kernel
  have hbm : (oneFile.writeIndices [0x41] (fun _ => 0x41) 1).bmStored = sectorIndices 512 1 := by
    decide +kernel
  have hrdUsed : ∀ i ∈ (oneFile.writeIndices [0x41] (fun _ => 0x41) 1).rdUsed, i < 512 * 1 := by
    decide +kernel
  have hbmUsed : ∀ i ∈ (oneFile.writeIndices [0x41] (fun _ => 0x41) 1).bmUsed, i < 512 * 1 := by
    decide +kernel
  refine ⟨?_, ?_, fun i hi => ?_, fun i hi => ?_⟩
  · rw [hrd]
    exact fun i hi => mem_sectorIndices_512.mp hi
  · rw [hbm]
    exact fun i hi => mem_sectorIndices_512.mp hi
  · rw [hrd]
    exact mem_sectorIndices_512.mpr (hrdUsed i hi)
  · rw [hbm]
    exact mem_sectorIndices_512.mpr (hbmUsed i hi)

theorem write_in_buffers_oneFile : oneFile.WriteFits [0x41] (fun _ => 0x41) 1 :=
  (write_in_buffers_iff sized_oneFile rfl (by decide) (fun _ => 0x41) (by decide)).mp
    inBuffers_oneFile

/-- A name of 160 characters: its last unit lies behind the cluster. -/
theorem long_name_leaves_buffer :
    513 ∈ (oneFile.writeIndices (List.replicate 160 0x41) (fun _ => 0x41) 1).rdUsed ∧
      ¬ oneFile.InBuffers (List.replicate 160 0x41) (fun _ => 0x41) 1 := by
  have hmem : 513 ∈ (oneFile.writeIndices (List.replicate 160 0x41) (fun _ => 0x41) 1).rdUsed := by
    decide +kernel
  exact ⟨hmem, fun h => absurd (h.rd 513 (h.rdUsed 513 hmem)) (show ¬ 513 < 512 by decide)⟩

end Exfat

end WinDOS
