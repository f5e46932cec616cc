import WinDOS.Lib.Bytes

/-!
# The loader looks for the kernel (`exfat_find_kern`, `start_kernel`)

Numbers are natural numbers; an operation on `usize` whose exact result does not fit is a fault,
and so is a read outside the slice. A sum that only serves as an index is not checked twice:
beyond `usize` it lies outside the slice as well.
-/

set_option autoImplicit false

namespace WinDOS

open Bytes

/-- What stops a step: a difference below zero, a result or a shift beyond `usize`, an index
outside the slice. -/
inductive Fault where
  | underflow
  | overflow
  | index
  deriving DecidableEq

/-- A slice as `from_raw_parts` promises it. -/
structure Slice where
  base : Nat
  size : Nat
  data : Buf
  base_pos : 0 < base
  size_lt : size < 2 ^ 63
  fits : base + size < 2 ^ 64

namespace Slice

def byte (b : Slice) (i : Nat) : Except Fault Byte :=
  if i < b.size then .ok (b.data i) else .error .index

/-- `from_le_bytes` of `n` bytes. -/
def num (b : Slice) (off n : Nat) : Except Fault Nat :=
  if off + n ≤ b.size then .ok (le b.data off n) else .error .index

end Slice

def usize (n : Nat) : Except Fault Nat := if n < 2 ^ 64 then .ok n else .error .overflow

def usizeSub (m n : Nat) : Except Fault Nat := if n ≤ m then .ok (m - n) else .error .underflow

/-- `m << n`: the amount must be below 64, the bits beyond `usize` are lost. -/
def usizeShl (m n : Nat) : Except Fault Nat :=
  if n < 64 then .ok (m * 2 ^ n % 2 ^ 64) else .error .overflow

/-- `po + clus_heap * 512 + (c - 2) * cluster`. -/
def clusterOffset (po clusHeap cluster c : Nat) : Except Fault Nat := do
  let heap ← usize (po + clusHeap * 512)
  let n ← usizeSub c 2
  let n ← usize (n * cluster)
  usize (heap + n)

/-- "KERNEL.BIN" in UTF-16. -/
def want : List Byte :=
  [0x4b, 0, 0x45, 0, 0x52, 0, 0x4e, 0, 0x45, 0, 0x4c, 0, 0x2e, 0, 0x42, 0, 0x49, 0, 0x4e, 0]

/-- The comparison of the name's bytes from `off` on. -/
def nameEq (b : Slice) : Nat → List Byte → Except Fault Bool
  | _, [] => .ok true
  | off, w :: ws => do
    let c ← b.byte off
    if c = w then nameEq b (off + 1) ws else return false

/-- First cluster and data length of the entry at `off`, of type `t`, if it is the kernel's. -/
def kernEntry (b : Slice) (off : Nat) (t : Byte) : Except Fault (Option (Nat × Nat)) := do
  if t &&& 0x80 ≠ 0 ∧ t &&& 0x7f = 0x01 then
    let stream := off + 32
    let st ← b.byte stream
    if st &&& 0x7f = 0x05 then
      let dl ← b.num (stream + 24) 8
      let fc ← b.num (stream + 16) 4
      let ne := off + 64
      let nt ← b.byte ne
      if nt &&& 0xC0 = 0xC0 then
        let nlen ← b.byte (ne + 1)
        let isKern ← if nlen = 10 then nameEq b (ne + 2) want else pure false
        return if isKern then some (fc, dl) else none
      else return none
    else return none
  else return none

/-- The loop over the directory. -/
def scan (b : Slice) (po clusHeap cluster off : Nat) : Except Fault (Nat × Nat) :=
  if off + 96 ≤ b.size then do
    let t ← b.byte off
    if t = 0 then return (0, 0)
    else
      match ← kernEntry b off t with
      | none => scan b po clusHeap cluster (off + 32)
      | some (fc, dl) =>
        let d ← clusterOffset po clusHeap cluster fc
        let p ← usize (b.base + d)
        return (p, dl)
  else return (0, 0)
termination_by b.size - off

def exfatFindKern (b : Slice) : Except Fault (Nat × Nat) := do
  if b.size < 0x200 then return (0, 0)
  else
    let s0 ← b.byte 0x1FE
    let s1 ← b.byte 0x1FF
    if s0 ≠ 0x55 ∨ s1 ≠ 0xaa then return (0, 0)
    else
      let lba ← b.num 0x1C6 4
      let po ← usize (lba * 512)
      if b.size < po + 512 then return (0, 0)
      else
        let _fatOff ← b.num (po + 0x50) 4
        let clusHeap ← b.num (po + 0x58) 4
        let rootClus ← b.num (po + 0x60) 4
        let spcShift ← b.byte (po + 0x72)
        let cluster ← usizeShl 512 spcShift.toNat
        let rootOff ← clusterOffset po clusHeap cluster rootClus
        let _first ← b.byte rootOff
        scan b po clusHeap cluster rootOff

/-- The bytes that `start_kernel` copies to the region at `kern`: none where it stops. -/
def startKernelCopy (b : Slice) (kern : Nat) : Except Fault (Option (Nat × Nat)) := do
  if b.size = 0 then return none
  else
    let (src, len) ← exfatFindKern b
    if len = 0 ∨ kern = 0 then return none
    else return some (src, len)

/-! ### The reads inside the slice -/

theorem Slice.byte_ok {b : Slice} {i : Nat} (h : i < b.size) : b.byte i = .ok (b.data i) := if_pos h

theorem Slice.num_ok {b : Slice} {off n : Nat} (h : off + n ≤ b.size) :
    b.num off n = .ok (le b.data off n) := if_pos h

theorem usize_ok {n : Nat} (h : n < 2 ^ 64) : usize n = .ok n := if_pos h

/-- The bytes `ws` stand at `off`. -/
def standsAt (buf : Buf) (off : Nat) (ws : List Byte) : Prop :=
  ∀ i < ws.length, buf (off + i) = ws.getD i 0

theorem standsAt_cons {buf : Buf} {off : Nat} {w : Byte} {ws : List Byte} :
    standsAt buf off (w :: ws) ↔ buf off = w ∧ standsAt buf (off + 1) ws := by
  constructor
  · intro h
    refine ⟨h 0 (Nat.succ_pos _), fun i hi => ?_⟩
    have := h (i + 1) (Nat.succ_lt_succ hi)
    rwa [Nat.add_comm i 1, ← Nat.add_assoc, Nat.add_comm 1 i] at this
  · rintro ⟨h0, h⟩ i hi
    cases i with
    | zero => exact h0
    | succ i =>
      have := h i (Nat.lt_of_succ_lt_succ hi)
      rwa [Nat.add_assoc, Nat.add_comm 1 i] at this

instance (buf : Buf) (off : Nat) (ws : List Byte) : Decidable (standsAt buf off ws) :=
  inferInstanceAs (Decidable (∀ i < ws.length, buf (off + i) = ws.getD i 0))

theorem nameEq_ok {b : Slice} {ws : List Byte} {off : Nat} (h : off + ws.length ≤ b.size) :
    nameEq b off ws = .ok (decide (standsAt b.data off ws)) := by
  induction ws generalizing off with
  | nil =>
    have hall : standsAt b.data off [] := fun i hi => absurd hi (Nat.not_lt_zero i)
    rw [nameEq, decide_eq_true hall]
  | cons w ws ih =>
    rw [List.length_cons] at h
    rw [nameEq, Slice.byte_ok (by omega)]
    change (if b.data off = w then nameEq b (off + 1) ws else .ok false) = _
    by_cases hw : b.data off = w
    · rw [if_pos hw, ih (by omega)]
      exact congrArg _ (decide_eq_decide.mpr (by rw [standsAt_cons, and_iff_right hw]))
    · rw [if_neg hw, decide_eq_false]
      rw [standsAt_cons]
      exact fun hs => hw hs.1

/-- The entry at `off` is a file of the name "KERNEL.BIN". -/
def IsKern (buf : Buf) (off : Nat) : Prop :=
  (buf off &&& 0x80 ≠ 0 ∧ buf off &&& 0x7f = 0x01) ∧ buf (off + 32) &&& 0x7f = 0x05 ∧
    buf (off + 64) &&& 0xC0 = 0xC0 ∧ buf (off + 65) = 10 ∧ standsAt buf (off + 66) want

instance (buf : Buf) (off : Nat) : Decidable (IsKern buf off) :=
  inferInstanceAs (Decidable (_ ∧ _))

def entryCluster (buf : Buf) (off : Nat) : Nat := le buf (off + 48) 4
def entryLength (buf : Buf) (off : Nat) : Nat := le buf (off + 56) 8

theorem kernEntry_ok {b : Slice} {off : Nat} (h : off + 96 ≤ b.size) :
    kernEntry b off (b.data off) = .ok (if IsKern b.data off then
      some (entryCluster b.data off, entryLength b.data off) else none) := by
  unfold kernEntry
  dsimp only
  by_cases ht : b.data off &&& 0x80 ≠ 0 ∧ b.data off &&& 0x7f = 0x01
  · rw [if_pos ht, Slice.byte_ok (by omega)]
    dsimp only [bind, Except.bind]
    by_cases hst : b.data (off + 32) &&& 0x7f = 0x05
    · rw [if_pos hst, Slice.num_ok (by omega), Slice.num_ok (by omega), Slice.byte_ok (by omega)]
      dsimp only
      by_cases hnt : b.data (off + 64) &&& 0xC0 = 0xC0
      · rw [if_pos hnt, Slice.byte_ok (by omega)]
        dsimp only
        by_cases hlen : b.data (off + 65) = 10
        · rw [if_pos hlen, nameEq_ok (by change off + 64 + 2 + 20 ≤ b.size; omega)]
          have hk : IsKern b.data off ↔ standsAt b.data (off + 66) want := by
            unfold IsKern
            rw [and_iff_right ht, and_iff_right hst, and_iff_right hnt, and_iff_right hlen]
          by_cases hs : standsAt b.data (off + 66) want
          · rw [if_pos (hk.mpr hs)]
            dsimp only
            rw [decide_eq_true hs]
            rfl
          · rw [if_neg (mt hk.mp hs)]
            dsimp only
            rw [decide_eq_false hs]
            rfl
        · rw [if_neg hlen, if_neg fun hk => hlen hk.2.2.2.1]
          rfl
      · rw [if_neg hnt, if_neg fun hk => hnt hk.2.2.1]
        rfl
    · rw [if_neg hst, if_neg fun hk => hst hk.2.1]
      rfl
  · rw [if_neg ht, if_neg fun hk => ht hk.1]
    rfl

/-! ### The scan -/

/-- Where cluster `c` begins. -/
def clusterPlace (po clusHeap cluster c : Nat) : Nat := po + clusHeap * 512 + (c - 2) * cluster

theorem bind_ok_iff {α β : Type} {x : Except Fault α} {f : α → Except Fault β} {r : β} :
    x >>= f = .ok r ↔ ∃ a, x = .ok a ∧ f a = .ok r := by
  cases x with
  | error e => exact iff_of_false (fun h => by cases h) fun ⟨_, h, _⟩ => by cases h
  | ok a => exact ⟨fun h => ⟨a, rfl, h⟩, fun ⟨_, ha, h⟩ => Except.ok.inj ha ▸ h⟩

theorem bind_of_ok {α β : Type} {x : Except Fault α} {f : α → Except Fault β} {a : α}
    {y : Except Fault β} (hx : x = .ok a) (hf : f a = y) : x >>= f = y := by
  rw [hx]
  exact hf

theorem usize_eq_ok_iff {n m : Nat} : usize n = .ok m ↔ n < 2 ^ 64 ∧ m = n := by
  unfold usize
  constructor
  · intro h
    by_cases hn : n < 2 ^ 64
    · rw [if_pos hn] at h
      exact ⟨hn, (Except.ok.inj h).symm⟩
    · rw [if_neg hn] at h
      cases h
  · rintro ⟨hn, rfl⟩
    exact if_pos hn

theorem usizeSub_eq_ok_iff {m n d : Nat} : usizeSub m n = .ok d ↔ n ≤ m ∧ d = m - n := by
  unfold usizeSub
  constructor
  · intro h
    by_cases hn : n ≤ m
    · rw [if_pos hn] at h
      exact ⟨hn, (Except.ok.inj h).symm⟩
    · rw [if_neg hn] at h
      cases h
  · rintro ⟨hn, rfl⟩
    exact if_pos hn

theorem clusterOffset_eq_ok_iff {po clusHeap cluster c d : Nat} :
    clusterOffset po clusHeap cluster c = .ok d ↔
      2 ≤ c ∧ clusterPlace po clusHeap cluster c < 2 ^ 64 ∧
        d = clusterPlace po clusHeap cluster c := by
  unfold clusterOffset clusterPlace
  constructor
  · intro h
    obtain ⟨heap, hheap, h⟩ := bind_ok_iff.mp h
    obtain ⟨n, hn, h⟩ := bind_ok_iff.mp h
    obtain ⟨m, hm, h⟩ := bind_ok_iff.mp h
    obtain ⟨-, rfl⟩ := usize_eq_ok_iff.mp hheap
    obtain ⟨hc, rfl⟩ := usizeSub_eq_ok_iff.mp hn
    obtain ⟨-, rfl⟩ := usize_eq_ok_iff.mp hm
    exact ⟨hc, usize_eq_ok_iff.mp h⟩
  · rintro ⟨hc, hd, rfl⟩
    refine bind_ok_iff.mpr ⟨_, usize_ok (by omega), ?_⟩
    refine bind_ok_iff.mpr ⟨_, usizeSub_eq_ok_iff.mpr ⟨hc, rfl⟩, ?_⟩
    exact bind_ok_iff.mpr ⟨_, usize_ok (by omega), usize_ok hd⟩

section Scan

variable {b : Slice} {po clusHeap cluster off : Nat}

/-- What the loader returns for the kernel's entry at `off`. -/
def kernRegion (b : Slice) (po clusHeap cluster off : Nat) : Except Fault (Nat × Nat) := do
  let d ← clusterOffset po clusHeap cluster (entryCluster b.data off)
  let p ← usize (b.base + d)
  return (p, entryLength b.data off)

theorem scan_end (h : b.size < off + 96) : scan b po clusHeap cluster off = .ok (0, 0) := by
  rw [scan, if_neg (Nat.not_le.mpr h)]
  rfl

theorem scan_stop (h : off + 96 ≤ b.size) (h0 : b.data off = 0) :
    scan b po clusHeap cluster off = .ok (0, 0) := by
  rw [scan, if_pos h, Slice.byte_ok (by omega)]
  dsimp only [bind, Except.bind]
  rw [if_pos h0]
  rfl

theorem scan_next (h : off + 96 ≤ b.size) (h0 : b.data off ≠ 0) (hk : ¬ IsKern b.data off) :
    scan b po clusHeap cluster off = scan b po clusHeap cluster (off + 32) := by
  rw [scan, if_pos h, Slice.byte_ok (by omega)]
  dsimp only [bind, Except.bind]
  rw [if_neg h0, kernEntry_ok h, if_neg hk]

theorem IsKern.ne_zero {buf : Buf} {off : Nat} (h : IsKern buf off) : buf off ≠ 0 := by
  intro h0
  refine h.1.1 ?_
  rw [h0]
  rfl

theorem scan_found (h : off + 96 ≤ b.size) (hk : IsKern b.data off) :
    scan b po clusHeap cluster off = kernRegion b po clusHeap cluster off := by
  rw [scan, if_pos h, Slice.byte_ok (by omega)]
  dsimp only [bind, Except.bind]
  rw [if_neg hk.ne_zero, kernEntry_ok h, if_pos hk]
  rfl

/-- The first entry of the kernel in the directory at `root`: inside the slice, after entries
that neither end the directory nor name the kernel. -/
def FirstKern (b : Slice) (root off : Nat) : Prop :=
  off + 96 ≤ b.size ∧ IsKern b.data off ∧
    ∃ k, off = root + 32 * k ∧
      ∀ j < k, b.data (root + 32 * j) ≠ 0 ∧ ¬ IsKern b.data (root + 32 * j)

theorem scan_first {root : Nat} (h : FirstKern b root off) :
    scan b po clusHeap cluster root = kernRegion b po clusHeap cluster off := by
  obtain ⟨hin, hk, k, hoff, hbefore⟩ := h
  induction k generalizing root with
  | zero =>
    obtain rfl : off = root := hoff
    exact scan_found hin hk
  | succ k ih =>
    obtain ⟨h0, hno⟩ := hbefore 0 (Nat.succ_pos k)
    rw [Nat.mul_zero, Nat.add_zero] at h0 hno
    rw [scan_next (by omega) h0 hno]
    refine ih (by omega) fun j hj => ?_
    have := hbefore (j + 1) (Nat.succ_lt_succ hj)
    rwa [show root + 32 * (j + 1) = root + 32 + 32 * j by omega] at this

/-- Without an entry of the kernel the scan comes to the end of the directory or of the slice. -/
theorem scan_none {root : Nat} (h : ∀ off, ¬ FirstKern b root off) :
    scan b po clusHeap cluster root = .ok (0, 0) := by
  induction hm : b.size - root using Nat.strongRecOn generalizing root with
  | ind m ih =>
    by_cases hin : root + 96 ≤ b.size
    · by_cases h0 : b.data root = 0
      · exact scan_stop hin h0
      · by_cases hk : IsKern b.data root
        · exact absurd ⟨hin, hk, 0, rfl, fun j hj => absurd hj (Nat.not_lt_zero j)⟩ (h root)
        · rw [scan_next hin h0 hk]
          refine ih (b.size - (root + 32)) (by omega) (fun off hoff => ?_) rfl
          obtain ⟨hin', hk', k, rfl, hbefore⟩ := hoff
          refine h _ ⟨hin', hk', k + 1, by omega, fun j hj => ?_⟩
          cases j with
          | zero => exact ⟨h0, hk⟩
          | succ j =>
            have := hbefore j (Nat.lt_of_succ_lt_succ hj)
            rwa [show root + 32 * (j + 1) = root + 32 + 32 * j by omega]
    · exact scan_end (Nat.not_le.mp hin)

end Scan

/-! ### Safety -/

/-- The region lies inside the slice. -/
def Slice.holds (b : Slice) (r : Nat × Nat) : Prop := b.base ≤ r.1 ∧ r.1 + r.2 ≤ b.base + b.size

/-- The loader comes to a result without a fault, the result is `(0, 0)` or a region of the
image, and so is what is copied. -/
def FindSafe (b : Slice) : Prop :=
  (∃ r, exfatFindKern b = .ok r ∧ (r = (0, 0) ∨ b.holds r)) ∧
    ∀ kern, ∃ c, startKernelCopy b kern = .ok c ∧ ∀ r ∈ c, b.holds r

section Fields

variable (b : Slice)

/-- The image begins with an MBR. -/
def HasMbr : Prop := 0x200 ≤ b.size ∧ b.data 0x1FE = 0x55 ∧ b.data 0x1FF = 0xaa

def partOffset : Nat := le b.data 0x1C6 4 * 512
def heapField : Nat := le b.data (partOffset b + 0x58) 4
def rootField : Nat := le b.data (partOffset b + 0x60) 4
def spcShiftField : Nat := (b.data (partOffset b + 0x72)).toNat
def clusterSize : Nat := 512 * 2 ^ spcShiftField b % 2 ^ 64

def clusterAt (c : Nat) : Nat := clusterPlace (partOffset b) (heapField b) (clusterSize b) c

/-- The fields that the loader follows stay inside the image: the shift, the root directory and
the kernel's entry. -/
structure FieldsInside : Prop where
  shift : spcShiftField b < 64
  root : 2 ≤ rootField b ∧ clusterAt b (rootField b) < b.size
  kern : ∀ off, FirstKern b (clusterAt b (rootField b)) off →
    2 ≤ entryCluster b.data off ∧
      clusterAt b (entryCluster b.data off) + entryLength b.data off ≤ b.size

end Fields

section Find

variable {b : Slice}

/-- The loader returns without a kernel, or reads the fields of the volume. -/
theorem exfatFindKern_cases (b : Slice) :
    (¬ (HasMbr b ∧ partOffset b + 512 ≤ b.size) ∧ exfatFindKern b = .ok (0, 0)) ∨
    ((HasMbr b ∧ partOffset b + 512 ≤ b.size) ∧ exfatFindKern b = (do
      let cluster ← usizeShl 512 (spcShiftField b)
      let rootOff ← clusterOffset (partOffset b) (heapField b) cluster (rootField b)
      let _ ← b.byte rootOff
      scan b (partOffset b) (heapField b) cluster rootOff)) := by
  unfold exfatFindKern
  by_cases hsize : b.size < 0x200
  · rw [if_pos hsize]
    exact .inl ⟨fun h => absurd h.1.1 (by omega), rfl⟩
  rw [if_neg hsize, Slice.byte_ok (by omega), Slice.byte_ok (by omega)]
  dsimp only [bind, Except.bind]
  by_cases hsig : b.data 0x1FE ≠ 0x55 ∨ b.data 0x1FF ≠ 0xaa
  · rw [if_pos hsig]
    exact .inl ⟨fun h => hsig.elim (fun hne => hne h.1.2.1) fun hne => hne h.1.2.2, rfl⟩
  have hlba := le_lt b.data 0x1C6 4
  rw [if_neg hsig, Slice.num_ok (by omega)]
  dsimp only
  rw [usize_ok (by omega)]
  dsimp only
  rw [not_or, not_not, not_not] at hsig
  by_cases hpo : b.size < le b.data 0x1C6 4 * 512 + 512
  · rw [if_pos hpo]
    exact .inl ⟨fun h => absurd h.2 (Nat.not_le.mpr hpo), rfl⟩
  · rw [if_neg hpo, Slice.num_ok (by omega), Slice.num_ok (by omega), Slice.num_ok (by omega),
      Slice.byte_ok (by omega)]
    exact .inr ⟨⟨⟨by omega, hsig⟩, Nat.not_lt.mp hpo⟩, rfl⟩

/-- The volume's fields, as far as the scan needs them, are right. -/
theorem exfatFindKern_scan (hpart : HasMbr b ∧ partOffset b + 512 ≤ b.size)
    (hshift : spcShiftField b < 64)
    (hroot : 2 ≤ rootField b ∧ clusterAt b (rootField b) < b.size) :
    exfatFindKern b = scan b (partOffset b) (heapField b) (clusterSize b)
      (clusterAt b (rootField b)) := by
  rcases exfatFindKern_cases b with ⟨hno, -⟩ | ⟨-, heq⟩
  · exact absurd hpart hno
  · have hlt := b.size_lt
    rw [heq]
    refine bind_of_ok (if_pos hshift) (bind_of_ok (clusterOffset_eq_ok_iff.mpr
      ⟨hroot.1, Nat.lt_trans hroot.2 (by omega), rfl⟩) (bind_of_ok (Slice.byte_ok hroot.2) rfl))

theorem kernRegion_holds_iff {po clusHeap cluster off : Nat} :
    (∃ r, kernRegion b po clusHeap cluster off = .ok r ∧ (r = (0, 0) ∨ b.holds r)) ↔
      2 ≤ entryCluster b.data off ∧
        clusterPlace po clusHeap cluster (entryCluster b.data off) + entryLength b.data off
          ≤ b.size := by
  have hfits := b.fits
  have hpos := b.base_pos
  constructor
  · rintro ⟨r, hr, hok⟩
    obtain ⟨d, hd, hr⟩ := bind_ok_iff.mp hr
    obtain ⟨p, hp, hr⟩ := bind_ok_iff.mp hr
    obtain ⟨hc, -, rfl⟩ := clusterOffset_eq_ok_iff.mp hd
    obtain ⟨-, rfl⟩ := usize_eq_ok_iff.mp hp
    obtain rfl := Except.ok.inj hr
    rcases hok with hzero | ⟨-, hin⟩
    · have := (Prod.mk.inj hzero).1
      omega
    · dsimp only at hin
      exact ⟨hc, by omega⟩
  · rintro ⟨hc, hin⟩
    have hd : clusterOffset po clusHeap cluster (entryCluster b.data off) =
        .ok (clusterPlace po clusHeap cluster (entryCluster b.data off)) :=
      clusterOffset_eq_ok_iff.mpr ⟨hc, by omega, rfl⟩
    refine ⟨_, bind_of_ok hd (bind_of_ok (usize_ok (by omega)) rfl), .inr ⟨?_, ?_⟩⟩
    · exact Nat.le_add_right _ _
    · dsimp only
      omega

theorem FindSafe.of_find {r : Nat × Nat} (hr : exfatFindKern b = .ok r)
    (hok : r = (0, 0) ∨ b.holds r) : FindSafe b := by
  refine ⟨⟨r, hr, hok⟩, fun kern => ?_⟩
  unfold startKernelCopy
  by_cases hsize : b.size = 0
  · rw [if_pos hsize]
    exact ⟨none, rfl, fun c hc => by cases hc⟩
  · rw [if_neg hsize]
    by_cases hstop : r.2 = 0 ∨ kern = 0
    · exact ⟨none, bind_of_ok hr (if_pos hstop), fun c hc => by cases hc⟩
    · refine ⟨some r, bind_of_ok hr (if_neg hstop), fun c hc => ?_⟩
      obtain rfl := Option.mem_some.mp hc
      rcases hok with rfl | hin
      · exact absurd (.inl rfl) hstop
      · exact hin

/-- Exactly the images without a volume, and those whose fields stay inside, are searched
safely. -/
theorem find_safe_iff (b : Slice) :
    FindSafe b ↔ (HasMbr b ∧ partOffset b + 512 ≤ b.size → FieldsInside b) := by
  rcases exfatFindKern_cases b with ⟨hno, heq⟩ | ⟨hpart, heq⟩
  · exact iff_of_true (FindSafe.of_find heq (.inl rfl)) fun h => absurd h hno
  · constructor
    · rintro ⟨⟨r, hr, hok⟩, -⟩ -
      rw [heq] at hr
      obtain ⟨cluster, hcluster, hr⟩ := bind_ok_iff.mp hr
      obtain ⟨root, hroot, hr⟩ := bind_ok_iff.mp hr
      obtain ⟨_, hfirst, hr⟩ := bind_ok_iff.mp hr
      have hshift : spcShiftField b < 64 := by
        by_contra hge
        rw [usizeShl, if_neg hge] at hcluster
        cases hcluster
      obtain rfl : clusterSize b = cluster := by
        rw [usizeShl, if_pos hshift] at hcluster
        exact Except.ok.inj hcluster
      obtain ⟨hclus, -, hplace⟩ := clusterOffset_eq_ok_iff.mp hroot
      obtain rfl : clusterAt b (rootField b) = root := hplace.symm
      have hin : clusterAt b (rootField b) < b.size := by
        by_contra hge
        rw [Slice.byte, if_neg hge] at hfirst
        cases hfirst
      refine ⟨hshift, ⟨hclus, hin⟩, fun off hoff => ?_⟩
      rw [scan_first hoff] at hr
      exact kernRegion_holds_iff.mp ⟨r, hr, hok⟩
    · intro h
      obtain ⟨hshift, hroot, hkern⟩ := h hpart
      have hscan := exfatFindKern_scan hpart hshift hroot
      by_cases hex : ∃ off, FirstKern b (clusterAt b (rootField b)) off
      · obtain ⟨off, hoff⟩ := hex
        obtain ⟨r, hr, hok⟩ := kernRegion_holds_iff.mpr (hkern off hoff)
        rw [scan_first hoff, hr] at hscan
        exact FindSafe.of_find hscan hok
      · rw [scan_none (not_exists.mp hex)] at hscan
        exact FindSafe.of_find hscan (.inl rfl)

/-- An image of two sectors whose directory, in the second one, gives the kernel a length of
65535 bytes. -/
def longKernel : Slice where
  base := 0x200000
  size := 1024
  data := fun i =>
    if 512 + 66 ≤ i ∧ i < 512 + 86 then want.getD (i - 578) 0
    else match i with
      | 0x1FE => 0x55 | 0x1FF => 0xaa | 0x58 => 1 | 0x60 => 2
      | 512 => 0x81 | 544 => 0x85 | 560 => 2 | 568 => 0xff | 569 => 0xff
      | 576 => 0xCA | 577 => 10 | _ => 0
  base_pos := by decide
  size_lt := by decide
  fits := by decide

/-- There the kernel's region ends behind the image, and `start_kernel` copies it. -/
theorem copies_past_image : startKernelCopy longKernel 0x400000 = .ok (some (0x200200, 65535)) ∧
    ¬ longKernel.holds (0x200200, 65535) ∧ ¬ FindSafe longKernel := by
  have hfind : exfatFindKern longKernel = .ok (0x200200, 65535) := by
    have hpart : HasMbr longKernel ∧ partOffset longKernel + 512 ≤ longKernel.size :=
      ⟨⟨by decide, rfl, rfl⟩, by decide⟩
    have hplace : clusterOffset (partOffset longKernel) (heapField longKernel)
        (clusterSize longKernel) (entryCluster longKernel.data 512) = .ok 512 :=
      clusterOffset_eq_ok_iff.mpr ⟨by decide, by decide, by decide⟩
    rw [exfatFindKern_scan hpart (by decide) (by decide)]
    refine (@scan_found longKernel _ _ _ 512 (by decide) (by decide)).trans ?_
    have hlen : (longKernel.base + 512, entryLength longKernel.data 512) = (0x200200, 65535) := by
      decide
    exact bind_of_ok hplace (bind_of_ok (usize_ok (by decide)) (congrArg _ hlen))
  have hcopy : startKernelCopy longKernel 0x400000 = .ok (some (0x200200, 65535)) :=
    bind_of_ok hfind rfl
  have hout : ¬ longKernel.holds (0x200200, 65535) := fun h => absurd h.2 (by decide)
  refine ⟨hcopy, hout, fun hsafe => ?_⟩
  obtain ⟨c, hc, hin⟩ := hsafe.2 0x400000
  obtain rfl := Except.ok.inj (hcopy.symm.trans hc)
  exact hout (hin _ rfl)

end Find

end WinDOS
