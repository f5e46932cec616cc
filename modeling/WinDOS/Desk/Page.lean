import WinDOS.Lib.Bitmap
import Mathlib.Data.List.Pairwise

/-!
# The page allocator (`desk/page.h`)

A pool of pages of 4 KiB with a bitmap and a count of the free ones. Addresses and numbers are
natural numbers, wrapped where the source computes with `u64` or `u32`.
-/

set_option autoImplicit false

namespace WinDOS

open Bytes Bitmap

def PAGE_SIZE : Nat := 4096
def PAGE_MAX : Nat := 16384
def PAGE_BMP_SZ : Nat := PAGE_MAX / 8

/-- `g_pool`, `g_pages`, `page_bmp` and `page_free_cnt`. -/
structure PagePool where
  pool : Nat
  pages : Nat
  bmp : Buf
  freeCnt : Nat

namespace PagePool

def pageInit (p : PagePool) (base bytes : Nat) : Int × PagePool :=
  if base = 0 ∨ base % PAGE_SIZE ≠ 0 ∨ bytes < PAGE_SIZE then (-1, p)
  else
    let pages := bytes / PAGE_SIZE % 2 ^ 32
    let pages := if pages > PAGE_MAX then PAGE_MAX else pages
    (0, ⟨base, pages, blit p.bmp 0 (fun _ => 0) PAGE_BMP_SZ, pages⟩)

def pageIsUsed (p : PagePool) (i : Nat) : Bool := bit p.bmp i

/-- The address of the first page, or 0. -/
def pageAlloc (p : PagePool) (n : Nat) : Nat × PagePool :=
  if n = 0 ∨ n > p.freeCnt then (0, p)
  else
    match firstFit p.pageIsUsed n p.pages 0 0 with
    | none => (0, p)
    | some base =>
      ((p.pool + base * PAGE_SIZE) % 2 ^ 64,
        { p with bmp := setRun n base p.bmp, freeCnt := p.freeCnt - n })

/-- The loop of `page_free`: `n` pages from `base` on, in `u32`. -/
def clearPages : Nat → Nat → Buf × Nat → Buf × Nat
  | 0, _, s => s
  | n + 1, base, (bmp, cnt) =>
    clearPages n ((base + 1) % 2 ^ 32)
      (if bit bmp base then (clrBit bmp base, (cnt + 1) % 2 ^ 32) else (bmp, cnt))

/-- The page at which the loop of `page_free` begins, if it comes to the loop. -/
def freeBase (p : PagePool) (ptr n : Nat) : Option Nat :=
  if ptr = 0 ∨ p.pool = 0 then none
  else
    let off := (ptr + (2 ^ 64 - p.pool)) % 2 ^ 64
    if off % PAGE_SIZE ≠ 0 then none
    else
      let base := off / PAGE_SIZE % 2 ^ 32
      if (base + n) % 2 ^ 32 > p.pages then none else some base

def pageFree (p : PagePool) (ptr n : Nat) : PagePool :=
  match p.freeBase ptr n with
  | none => p
  | some base =>
    let (bmp, cnt) := clearPages n base (p.bmp, p.freeCnt)
    { p with bmp := bmp, freeCnt := cnt }

end PagePool

open PagePool

/-! ### Runs -/

/-- A block as it was handed out: its address and its number of pages. -/
abbrev PageBlock := Nat × Nat

/-- The live blocks after an allocation that returned `ptr`. -/
def handOut (ptr n : Nat) (live : List PageBlock) : List PageBlock :=
  if ptr = 0 then live else (ptr, n) :: live

/-- Pools that allocations and releases of live blocks lead to, with the live blocks. The pool
lies below 2^64. -/
inductive PageRun : PagePool → List PageBlock → Prop where
  | init {p p' : PagePool} {base bytes : Nat} (h : p.pageInit base bytes = (0, p'))
    (pages : 1 ≤ p'.pages) (fits : base + p'.pages * PAGE_SIZE ≤ 2 ^ 64) : PageRun p' []
  | alloc {p : PagePool} {live : List PageBlock} (h : PageRun p live) {n : Nat} (hn : n < 2 ^ 32) :
    PageRun (p.pageAlloc n).2 (handOut (p.pageAlloc n).1 n live)
  | free {p : PagePool} {live : List PageBlock} (h : PageRun p live) {b : PageBlock} (hb : b ∈ live) :
    PageRun (p.pageFree b.1 b.2) (live.erase b)

/-- Page `i` of the pool belongs to the block. -/
def PagePool.inBlock (p : PagePool) (b : PageBlock) (i : Nat) : Prop :=
  b.1 ≤ p.pool + i * PAGE_SIZE ∧ p.pool + i * PAGE_SIZE < b.1 + b.2 * PAGE_SIZE

def disjointBlocks (b c : PageBlock) : Prop :=
  b.1 + b.2 * PAGE_SIZE ≤ c.1 ∨ c.1 + c.2 * PAGE_SIZE ≤ b.1

instance : Std.Symm disjointBlocks := ⟨fun _ _ h => h.symm⟩

/-- The first run of `n` free pages begins at page `b`. -/
def PagePool.firstRun (p : PagePool) (n b : Nat) : Prop :=
  b + n ≤ p.pages ∧ FreeRun p.pageIsUsed n b ∧ ∀ c < b, ¬ FreeRun p.pageIsUsed n c

/-- The state of the allocator is right: what is live, what the bitmap and the counter say, and
what an allocation returns. -/
structure PoolRight (p : PagePool) (live : List PageBlock) : Prop where
  disjoint : live.Pairwise disjointBlocks
  placed : ∀ b ∈ live, b.1 % PAGE_SIZE = 0 ∧ p.pool ≤ b.1 ∧
    b.1 + b.2 * PAGE_SIZE ≤ p.pool + p.pages * PAGE_SIZE
  bits : ∀ i < PAGE_MAX, p.pageIsUsed i = true ↔ ∃ b ∈ live, p.inBlock b i
  count : p.freeCnt = freeCount p.pageIsUsed p.pages
  allocZero : ∀ n < 2 ^ 32, (p.pageAlloc n).1 = 0 ↔
    n = 0 ∨ ∀ b, b + n ≤ p.pages → ¬ FreeRun p.pageIsUsed n b
  allocFirst : ∀ n < 2 ^ 32, (p.pageAlloc n).1 ≠ 0 →
    ∃ b, p.firstRun n b ∧ (p.pageAlloc n).1 = p.pool + b * PAGE_SIZE

/-- What every run keeps. -/
structure PoolInv (p : PagePool) (live : List PageBlock) : Prop where
  base : p.pool ≠ 0 ∧ p.pool % PAGE_SIZE = 0
  pages : 1 ≤ p.pages ∧ p.pages ≤ PAGE_MAX
  fits : p.pool + p.pages * PAGE_SIZE ≤ 2 ^ 64
  disjoint : live.Pairwise disjointBlocks
  placed : ∀ b ∈ live, ∃ k, b.1 = p.pool + k * PAGE_SIZE ∧ 1 ≤ b.2 ∧ k + b.2 ≤ p.pages
  bits : ∀ i < PAGE_MAX, p.pageIsUsed i = true ↔ ∃ b ∈ live, p.inBlock b i
  count : p.freeCnt = freeCount p.pageIsUsed p.pages

/-! ### The operations -/

/-- What the pool itself keeps, whatever the blocks are. -/
structure PoolCounts (p : PagePool) : Prop where
  base : p.pool ≠ 0 ∧ p.pool % PAGE_SIZE = 0 ∧ p.pool < 2 ^ 64
  pages : p.pages ≤ PAGE_MAX
  fits : p.pool + p.pages * PAGE_SIZE ≤ 2 ^ 64
  count : p.freeCnt = freeCount p.pageIsUsed p.pages

theorem PoolInv.counts {p : PagePool} {live : List PageBlock} (h : PoolInv p live) :
    PoolCounts p := by
  have hpages := h.pages.1
  have hfits := h.fits
  unfold PAGE_SIZE at hfits
  exact ⟨⟨h.base.1, h.base.2, by omega⟩, h.pages.2, h.fits, h.count⟩

theorem pageAlloc_cases {p : PagePool} (h : PoolCounts p) (n : Nat) :
    (p.pageAlloc n = (0, p) ∧ (n = 0 ∨ ∀ b, b + n ≤ p.pages → ¬ FreeRun p.pageIsUsed n b)) ∨
    ∃ b, 0 < n ∧ p.firstRun n b ∧ p.pageAlloc n = (p.pool + b * PAGE_SIZE,
      { p with bmp := setRun n b p.bmp, freeCnt := p.freeCnt - n }) := by
  unfold pageAlloc
  by_cases hn : n = 0 ∨ n > p.freeCnt
  · rw [if_pos hn]
    refine .inl ⟨rfl, hn.imp id fun hgt b hb hf => ?_⟩
    have := hf.le_freeCount hb
    rw [← h.count] at this
    omega
  · rw [if_neg hn]
    rcases @firstFit_cases p.pageIsUsed n 0 0 p.pages (by omega) (by omega)
        (fun j _ hj => absurd hj (by omega)) (fun b hb => absurd hb (by omega)) with
      ⟨hnone, hall⟩ | ⟨b, hsome, hin, hfree, hlow⟩
    · rw [hnone]
      exact .inl ⟨rfl, .inr fun b hb => hall b (by omega)⟩
    · rw [hsome]
      refine .inr ⟨b, by omega, ⟨by omega, hfree, hlow⟩, ?_⟩
      have hfits := h.fits
      have : (p.pool + b * PAGE_SIZE) % 2 ^ 64 = p.pool + b * PAGE_SIZE :=
        Nat.mod_eq_of_lt (by unfold PAGE_SIZE at *; omega)
      dsimp only
      rw [this]

/-- One page is given exactly if the counter is not 0. -/
theorem pageAlloc_one {p : PagePool} (h : PoolCounts p) :
    (p.freeCnt = 0 ∧ p.pageAlloc 1 = (0, p)) ∨
    ∃ b, p.firstRun 1 b ∧ 1 ≤ p.freeCnt ∧ p.pageAlloc 1 = (p.pool + b * PAGE_SIZE,
      { p with bmp := setRun 1 b p.bmp, freeCnt := p.freeCnt - 1 }) := by
  rcases pageAlloc_cases h 1 with ⟨hrun, hnone⟩ | ⟨b, -, hfirst, hrun⟩
  · refine .inl ⟨?_, hrun⟩
    rw [h.count]
    refine Nat.count_iff_forall_not.mpr fun i hi hfree => ?_
    refine hnone.resolve_left (by decide) i hi fun j h0 h1 => ?_
    rwa [show j = i by omega]
  · refine .inr ⟨b, hfirst, ?_, hrun⟩
    rw [h.count]
    exact hfirst.2.1.le_freeCount hfirst.1

/-- Below 2^32 the loop of `page_free` clears a run. -/
theorem clearPages_eq {n base : Nat} (bmp : Buf) (cnt : Nat) (h : base + n < 2 ^ 32) :
    clearPages n base (bmp, cnt % 2 ^ 32) =
      ((clearRun n base (bmp, cnt)).1, (clearRun n base (bmp, cnt)).2 % 2 ^ 32) := by
  induction n generalizing base bmp cnt with
  | zero => rfl
  | succ n ih =>
    rw [clearPages, clearRun, Nat.mod_eq_of_lt (show base + 1 < 2 ^ 32 by omega)]
    by_cases hb : bit bmp base = true
    · rw [if_pos hb, if_pos hb, Nat.mod_add_mod, ih _ _ (by omega)]
    · rw [if_neg hb, if_neg hb, ih _ _ (by omega)]

/-- Pages of the pool are released: the set bits among them are cleared and counted. -/
theorem pageFree_eq {p : PagePool} (h : PoolCounts p) {ptr n k : Nat}
    (hk : ptr = p.pool + k * PAGE_SIZE) (hin : k + n ≤ p.pages) :
    p.freeBase ptr n = some k ∧ p.pageFree ptr n = { p with
      bmp := (clearRun n k (p.bmp, p.freeCnt)).1
      freeCnt := (clearRun n k (p.bmp, p.freeCnt)).2 } := by
  obtain ⟨hbase, -, hlt⟩ := h.base
  have hpages := h.pages
  have hfits := h.fits
  unfold PAGE_MAX at hpages
  have hrun : p.freeBase ptr n = some k := by
    unfold PAGE_SIZE at hk hfits
    have hoff : (ptr + (2 ^ 64 - p.pool)) % 2 ^ 64 = k * 4096 := by omega
    unfold freeBase PAGE_SIZE
    rw [if_neg (by omega)]
    dsimp only
    rw [hoff, if_neg (by omega), show k * 4096 / 4096 % 2 ^ 32 = k by omega,
      if_neg (by rw [Nat.mod_eq_of_lt (by omega)]; omega)]
  refine ⟨hrun, ?_⟩
  obtain ⟨hcnt, hcount⟩ := @clearRun_used n k p.pages p.bmp p.freeCnt hin
  have hold := h.count
  have hle : freeCount (bit (clearRun n k (p.bmp, p.freeCnt)).1) p.pages ≤ p.pages :=
    Nat.count_le _
  change p.freeCnt = freeCount (bit p.bmp) p.pages at hold
  have hloop := @clearPages_eq n k p.bmp p.freeCnt (by omega)
  rw [Nat.mod_eq_of_lt (show p.freeCnt < 2 ^ 32 by omega),
    Nat.mod_eq_of_lt (show (clearRun n k (p.bmp, p.freeCnt)).2 < 2 ^ 32 by omega)] at hloop
  unfold pageFree
  rw [hrun]
  dsimp only
  rw [hloop]

/-- `page_init` refuses the region, or takes it with an empty bitmap. -/
theorem pageInit_cases (p : PagePool) (base bytes : Nat) : p.pageInit base bytes = (-1, p) ∨
    ∃ pages, base ≠ 0 ∧ base % PAGE_SIZE = 0 ∧ pages ≤ PAGE_MAX ∧
      p.pageInit base bytes = (0, ⟨base, pages, blit p.bmp 0 (fun _ => 0) PAGE_BMP_SZ, pages⟩) := by
  unfold pageInit
  by_cases hbad : base = 0 ∨ base % PAGE_SIZE ≠ 0 ∨ bytes < PAGE_SIZE
  · rw [if_pos hbad]
    exact .inl rfl
  · rw [if_neg hbad]
    rw [not_or, not_or, not_not] at hbad
    refine .inr ⟨_, hbad.1, hbad.2.1, ?_, rfl⟩
    split
    · exact le_refl _
    · omega

theorem bit_zeroed (bmp : Buf) {i : Nat} (hi : i < PAGE_MAX) :
    bit (blit bmp 0 (fun _ => 0) PAGE_BMP_SZ) i = false := by
  unfold bit
  unfold PAGE_MAX at hi
  rw [blit_in (by omega) (by unfold PAGE_BMP_SZ PAGE_MAX; omega)]
  exact BitVec.getLsbD_zero

theorem freeCount_zeroed (bmp : Buf) {pages : Nat} (h : pages ≤ PAGE_MAX) :
    freeCount (bit (blit bmp 0 (fun _ => 0) PAGE_BMP_SZ)) pages = pages :=
  Nat.count_iff_forall.mpr fun _ hi => bit_zeroed bmp (Nat.lt_of_lt_of_le hi h)

theorem PoolInv.init {p p' : PagePool} {base bytes : Nat} (h : p.pageInit base bytes = (0, p'))
    (hpages : 1 ≤ p'.pages) (hfits : base + p'.pages * PAGE_SIZE ≤ 2 ^ 64) : PoolInv p' [] := by
  rcases pageInit_cases p base bytes with hbad | ⟨pages, hne, halign, hmax, hrun⟩
  · rw [hbad] at h
    exact absurd (show (-1 : Int) = 0 from congrArg Prod.fst h) (by decide)
  · rw [hrun] at h
    obtain rfl := (Prod.mk.inj h).2
    refine ⟨⟨hne, halign⟩, ⟨hpages, hmax⟩, hfits, List.Pairwise.nil,
      fun b hb => absurd hb List.not_mem_nil, fun i hi => ?_, (freeCount_zeroed p.bmp hmax).symm⟩
    refine iff_of_false (fun hu => ?_) fun ⟨b, hb, _⟩ => absurd hb List.not_mem_nil
    exact Bool.false_ne_true ((bit_zeroed p.bmp hi).symm.trans hu)

section Step

variable {p : PagePool} {live : List PageBlock} (h : PoolInv p live)
include h

theorem PoolInv.disjoint_free {n b : Nat} (hn : 0 < n) (hb : b + n ≤ p.pages)
    (hfree : FreeRun p.pageIsUsed n b) {c : PageBlock} (hc : c ∈ live) :
    disjointBlocks (p.pool + b * PAGE_SIZE, n) c := by
  obtain ⟨k, hk, hpos, hin⟩ := h.placed c hc
  have hmax := h.pages.2
  by_contra hmeet
  unfold disjointBlocks at hmeet
  unfold PAGE_SIZE at hk hmeet
  have hused : p.pageIsUsed (max b k) = true := (h.bits _ (by omega)).mpr
    ⟨c, hc, by unfold PAGE_SIZE; omega, by unfold PAGE_SIZE; omega⟩
  rw [hfree (max b k) (by omega) (by omega)] at hused
  cases hused

theorem PoolInv.alloc (n : Nat) :
    PoolInv (p.pageAlloc n).2 (handOut (p.pageAlloc n).1 n live) := by
  rcases pageAlloc_cases h.counts n with ⟨hrun, -⟩ | ⟨b, hn, ⟨hb, hfree, -⟩, hrun⟩
  · rw [hrun]
    exact h
  · have hne : p.pool + b * PAGE_SIZE ≠ 0 := by
      have := h.base.1
      omega
    rw [hrun, handOut, if_neg hne]
    refine ⟨h.base, h.pages, h.fits, ?_, fun c hc => ?_, fun i hi => ?_, ?_⟩
    · exact List.pairwise_cons.mpr ⟨fun c hc => h.disjoint_free hn hb hfree hc, h.disjoint⟩
    · rcases List.mem_cons.mp hc with rfl | hc
      · exact ⟨b, rfl, hn, hb⟩
      · exact h.placed c hc
    · have hnew : PagePool.inBlock { p with bmp := setRun n b p.bmp, freeCnt := p.freeCnt - n }
          (p.pool + b * PAGE_SIZE, n) i ↔ b ≤ i ∧ i < b + n := by
        unfold inBlock PAGE_SIZE
        dsimp only
        omega
      have hbit := bit_setRun n b p.bmp i
      unfold pageIsUsed
      dsimp only
      rw [hbit, Bool.or_eq_true, decide_eq_true_eq, List.exists_mem_cons_iff, hnew, or_comm]
      exact or_congr_right (h.bits i hi)
    · have hcount := freeCount_setRun hfree hb
      have hold := h.count
      change p.freeCnt - n = freeCount (bit (setRun n b p.bmp)) p.pages
      change p.freeCnt = freeCount (bit p.bmp) p.pages at hold
      omega

theorem PoolInv.free {b : PageBlock} (hb : b ∈ live) :
    PoolInv (p.pageFree b.1 b.2) (live.erase b) := by
  obtain ⟨k, hk, hpos, hin⟩ := h.placed b hb
  have hmax := h.pages.2
  have hnodup : live.Nodup := h.disjoint.imp_of_mem fun {c d} hc _ hd heq => by
    obtain ⟨_, _, hcpos, _⟩ := h.placed c hc
    rw [heq] at hd hcpos
    unfold disjointBlocks PAGE_SIZE at hd
    omega
  have hset : ∀ j, k ≤ j → j < k + b.2 → bit p.bmp j = true := fun j h0 h1 =>
    (h.bits j (by omega)).mpr ⟨b, hb, by unfold inBlock PAGE_SIZE at *; omega⟩
  obtain ⟨hcnt, hcount⟩ := clearRun_count p.freeCnt hset hin
  rw [(pageFree_eq h.counts hk hin).2]
  refine ⟨h.base, h.pages, h.fits, h.disjoint.sublist List.erase_sublist, fun c hc => ?_,
    fun i hi => ?_, ?_⟩
  · exact h.placed c (List.mem_of_mem_erase hc)
  · have hbit := clearRun_bit b.2 k p.bmp p.freeCnt i
    have hold := h.bits i hi
    unfold pageIsUsed at hold ⊢
    dsimp only
    rw [hbit, Bool.and_eq_true, hold, Bool.not_eq_true', decide_eq_false_iff_not]
    constructor
    · rintro ⟨⟨c, hc, hci⟩, hout⟩
      refine ⟨c, (hnodup.mem_erase_iff).mpr ⟨?_, hc⟩, hci⟩
      rintro rfl
      unfold PagePool.inBlock PAGE_SIZE at hci
      unfold PAGE_SIZE at hk
      omega
    · rintro ⟨c, hc, hci⟩
      obtain ⟨hne, hc⟩ := hnodup.mem_erase_iff.mp hc
      refine ⟨⟨c, hc, hci⟩, fun hmeet => ?_⟩
      have hdis := h.disjoint.forall hc hb hne
      have hci : p.inBlock c i := hci
      unfold PagePool.inBlock PAGE_SIZE at hci
      unfold disjointBlocks PAGE_SIZE at hdis
      unfold PAGE_SIZE at hk
      omega
  · have hold := h.count
    change (clearRun b.2 k (p.bmp, p.freeCnt)).2 =
      freeCount (bit (clearRun b.2 k (p.bmp, p.freeCnt)).1) p.pages
    change p.freeCnt = freeCount (bit p.bmp) p.pages at hold
    omega

end Step

theorem PageRun.inv {p : PagePool} {live : List PageBlock} (h : PageRun p live) :
    PoolInv p live := by
  induction h with
  | init h pages fits => exact PoolInv.init h pages fits
  | alloc _ _ ih => exact ih.alloc _
  | free _ hb ih => exact ih.free hb

/-- After every run the live blocks are disjoint pages of the pool, the bitmap and the counter
say which pages are taken, and an allocation returns the lowest run of free pages if there is
one. -/
theorem page_run_right {p : PagePool} {live : List PageBlock} (h : PageRun p live) :
    PoolRight p live := by
  have hinv := h.inv
  refine ⟨hinv.disjoint, fun b hb => ?_, hinv.bits, hinv.count, fun n _ => ?_, fun n _ hne => ?_⟩
  · obtain ⟨k, hk, -, hin⟩ := hinv.placed b hb
    have hbase := hinv.base.2
    unfold PAGE_SIZE at *
    omega
  · rcases pageAlloc_cases hinv.counts n with ⟨hrun, hnone⟩ | ⟨b, hn, ⟨hb, hfree, -⟩, hrun⟩
    · rw [hrun]
      exact iff_of_true rfl hnone
    · rw [hrun]
      refine iff_of_false (fun h0 => hinv.base.1 (by omega)) ?_
      rintro (h0 | hall)
      · omega
      · exact hall b hb hfree
  · rcases pageAlloc_cases hinv.counts n with ⟨hrun, -⟩ | ⟨b, -, hfirst, hrun⟩
    · rw [hrun] at hne
      exact absurd rfl hne
    · rw [hrun]
      exact ⟨b, hfirst, rfl⟩

/-- A pool of 16 pages at 1 MiB, from which one page was taken. -/
theorem page_run_right_one : ∃ p live, PageRun p live ∧ live ≠ [] ∧ PoolRight p live := by
  have hinit : PageRun _ [] := @PageRun.init ⟨0, 8, fun _ => 0, 8⟩ _ 0x100000 0x10000 rfl
    (by decide) (by decide)
  have hrun := hinit.alloc (n := 1) (by decide)
  exact ⟨_, _, hrun, by decide, page_run_right hrun⟩

end WinDOS
