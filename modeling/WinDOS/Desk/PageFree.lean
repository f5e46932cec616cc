import WinDOS.Desk.Page

/-!
# The release of pages (`page_free`)

`page_free` is given an address and a number of pages and checks neither against the blocks that
were handed out. Its offset is cut to 32 bits and its bound is a sum in `u32`.
-/

set_option autoImplicit false

namespace WinDOS

open Bytes Bitmap

namespace PagePool

/-- The bits of `page_bmp` that `page_free` reads, and perhaps writes. -/
def pageFreeBits (p : PagePool) (ptr n : Nat) : List Nat :=
  match p.freeBase ptr n with
  | none => []
  | some base => (List.range n).map fun k => (base + k) % 2 ^ 32

/-- The distance of an address from the pool, as `page_free` computes it. -/
def offset (p : PagePool) (ptr : Nat) : Nat := (ptr + (2 ^ 64 - p.pool)) % 2 ^ 64

/-- The `n` pages from `ptr` on are pages of the pool. -/
def inside (p : PagePool) (ptr n : Nat) : Prop :=
  ptr ≠ 0 ∧ p.pool ≤ ptr ∧ (ptr - p.pool) % PAGE_SIZE = 0 ∧
    ptr + n * PAGE_SIZE ≤ p.pool + p.pages * PAGE_SIZE

/-- The pages from number `k` on are released: the set bits among them are cleared, the counter is
raised by their number, and all else stays. -/
structure Released (p p' : PagePool) (k n : Nat) : Prop where
  bits : ∀ i, p'.pageIsUsed i = (p.pageIsUsed i && !decide (k ≤ i ∧ i < k + n))
  count : p'.freeCnt = p.freeCnt + usedCount p.pageIsUsed n k
  pool : p'.pool = p.pool
  pages : p'.pages = p.pages

/-- What `page_free` is to do with any address and any number of pages. -/
structure FreeRight (p : PagePool) (ptr n : Nat) : Prop where
  released : p.inside ptr n → p.Released (p.pageFree ptr n) ((ptr - p.pool) / PAGE_SIZE) n
  refused : ¬ p.inside ptr n → p.pageFree ptr n = p
  bits : ∀ i ∈ p.pageFreeBits ptr n, i < p.pages

/-- The numbers on which nothing is lost: there is nothing to release, the address is no page, the
pages lie in the pool, the sum that is compared is too large, or the offset that is left after the
cut names free pages. -/
def freeGuard (p : PagePool) (ptr n : Nat) : Prop :=
  let page := p.offset ptr / PAGE_SIZE
  n = 0 ∨ ptr = 0 ∨ p.offset ptr % PAGE_SIZE ≠ 0 ∨ page + n ≤ p.pages ∨
    p.pages < (page % 2 ^ 32 + n) % 2 ^ 32 ∨
    page % 2 ^ 32 + n ≤ p.pages ∧ FreeRun p.pageIsUsed n (page % 2 ^ 32)

end PagePool

open PagePool

/-! ### Runs -/

/-- The pool in the kernel's image, of eight pages. -/
def staticPool (base : Nat) : PagePool := ⟨base, 8, fun _ => 0, 8⟩

/-- The states that calls lead to, with any addresses and numbers that the guard admits. A pool is
a region of memory: it ends below 2^64. -/
inductive PageReach : PagePool → Prop where
  | static {base : Nat} (h : base ≠ 0 ∧ base % PAGE_SIZE = 0)
    (fits : base + 8 * PAGE_SIZE ≤ 2 ^ 64) : PageReach (staticPool base)
  | init {p : PagePool} (h : PageReach p) {base bytes : Nat} (hbase : base < 2 ^ 64)
    (fits : (p.pageInit base bytes).1 = 0 →
      base + (p.pageInit base bytes).2.pages * PAGE_SIZE ≤ 2 ^ 64) :
    PageReach (p.pageInit base bytes).2
  | alloc {p : PagePool} (h : PageReach p) {n : Nat} (hn : n < 2 ^ 32) :
    PageReach (p.pageAlloc n).2
  | free {p : PagePool} (h : PageReach p) {ptr n : Nat} (hptr : ptr < 2 ^ 64) (hn : n < 2 ^ 32)
    (guard : p.freeGuard ptr n) : PageReach (p.pageFree ptr n)

/-! ### One call -/

theorem clearPages_free {n base : Nat} {s : Buf × Nat} (h : FreeRun (bit s.1) n base)
    (hle : base + n < 2 ^ 32) : clearPages n base s = s := by
  induction n generalizing base with
  | zero => rfl
  | succ n ih =>
    rw [clearPages, h base (Nat.le_refl base) (by omega), if_neg Bool.false_ne_true,
      Nat.mod_eq_of_lt (by omega)]
    exact ih (fun j h0 h1 => h j (by omega) (by omega)) (by omega)

section Call

variable {p : PagePool} (h : PoolCounts p) {ptr n : Nat} (hptr : ptr < 2 ^ 64) (hn : n < 2 ^ 32)
include h

/-- The guards of `page_free` in terms of the offset. -/
theorem freeBase_eq (ptr n : Nat) : p.freeBase ptr n =
    if ptr = 0 ∨ p.offset ptr % PAGE_SIZE ≠ 0 ∨
      p.pages < (p.offset ptr / PAGE_SIZE % 2 ^ 32 + n) % 2 ^ 32 then none
    else some (p.offset ptr / PAGE_SIZE % 2 ^ 32) := by
  have hbase := h.base.1
  unfold freeBase offset
  by_cases h0 : ptr = 0
  · rw [if_pos (.inl h0), if_pos (.inl h0)]
  · rw [if_neg (not_or.mpr ⟨h0, hbase⟩)]
    dsimp only
    by_cases hoff : (ptr + (2 ^ 64 - p.pool)) % 2 ^ 64 % PAGE_SIZE ≠ 0
    · rw [if_pos hoff, if_pos (.inr (.inl hoff))]
    · rw [if_neg hoff]
      by_cases hsum : p.pages < ((ptr + (2 ^ 64 - p.pool)) % 2 ^ 64 / PAGE_SIZE % 2 ^ 32 + n) % 2 ^ 32
      · rw [if_pos hsum, if_pos (.inr (.inr hsum))]
      · rw [if_neg hsum, if_neg (not_or.mpr ⟨h0, not_or.mpr ⟨hoff, hsum⟩⟩)]

include hptr in
theorem inside_iff (h0 : ptr ≠ 0) (hoff : p.offset ptr % PAGE_SIZE = 0) :
    p.inside ptr n ↔ p.offset ptr / PAGE_SIZE + n ≤ p.pages := by
  obtain ⟨hbase, halign, hlt⟩ := h.base
  have hfits := h.fits
  unfold offset PAGE_SIZE at *
  unfold inside PAGE_SIZE
  omega

theorem inside_place (hin : p.inside ptr n) : ptr = p.pool + (ptr - p.pool) / PAGE_SIZE * PAGE_SIZE ∧
    p.offset ptr = ptr - p.pool ∧ (ptr - p.pool) / PAGE_SIZE + n ≤ p.pages := by
  obtain ⟨hbase, halign, hlt⟩ := h.base
  have hfits := h.fits
  unfold offset
  unfold inside PAGE_SIZE at *
  omega

theorem pageFree_inside (hin : p.inside ptr n) : FreeRight p ptr n := by
  obtain ⟨hplace, -, hle⟩ := inside_place h hin
  obtain ⟨hbase, hfree⟩ := pageFree_eq h hplace hle
  obtain ⟨hcnt, -⟩ := @clearRun_used n ((ptr - p.pool) / PAGE_SIZE) p.pages p.bmp p.freeCnt hle
  refine ⟨fun _ => ⟨fun i => ?_, ?_, ?_, ?_⟩, fun hout => absurd hin hout, fun i hi => ?_⟩
  · rw [hfree]
    exact clearRun_bit n _ p.bmp p.freeCnt i
  · rw [hfree]
    exact hcnt
  · rw [hfree]
  · rw [hfree]
  · unfold pageFreeBits at hi
    rw [hbase] at hi
    obtain ⟨k, hk, rfl⟩ := List.mem_map.mp hi
    have hlt := List.mem_range.mp hk
    exact Nat.lt_of_le_of_lt (Nat.mod_le _ _) (by omega)

omit h in
theorem PagePool.FreeRight.of_none (hin : ¬ p.inside ptr n) (hnone : p.freeBase ptr n = none) :
    FreeRight p ptr n := by
  refine ⟨fun h => absurd h hin, fun _ => ?_, fun i hi => ?_⟩
  · unfold pageFree
    rw [hnone]
  · unfold pageFreeBits at hi
    rw [hnone] at hi
    cases hi

omit h in
theorem PagePool.FreeRight.of_free {b : Nat} (hin : ¬ p.inside ptr n) (hb : p.freeBase ptr n = some b)
    (hle : b + n ≤ p.pages) (hmax : p.pages ≤ PAGE_MAX) (hfree : FreeRun p.pageIsUsed n b) :
    FreeRight p ptr n := by
  unfold PAGE_MAX at hmax
  refine ⟨fun h => absurd h hin, fun _ => ?_, fun i hi => ?_⟩
  · have hloop : clearPages n b (p.bmp, p.freeCnt) = (p.bmp, p.freeCnt) :=
      clearPages_free hfree (by omega)
    unfold pageFree
    rw [hb]
    dsimp only
    rw [hloop]
  · unfold pageFreeBits at hi
    rw [hb] at hi
    obtain ⟨k, hk, rfl⟩ := List.mem_map.mp hi
    have hlt := List.mem_range.mp hk
    exact Nat.lt_of_le_of_lt (Nat.mod_le _ _) (by omega)

/-- Where the loop is entered outside the pool and all is right, its pages are pages of the pool,
and free. -/
theorem PagePool.FreeRight.free_of_some {b : Nat} (hin : ¬ p.inside ptr n) (hb : p.freeBase ptr n = some b)
    (hlt : b < 2 ^ 32) (hsum : (b + n) % 2 ^ 32 ≤ p.pages) (hright : FreeRight p ptr n) :
    b + n ≤ p.pages ∧ FreeRun p.pageIsUsed n b := by
  have hmax := h.pages
  unfold PAGE_MAX at hmax
  -- A sum that wraps means that the loop comes to bit 2^32 - 1.
  have hwrap : b + n < 2 ^ 32 := by
    by_contra hge
    have hmem : (b + (2 ^ 32 - 1 - b)) % 2 ^ 32 ∈ p.pageFreeBits ptr n := by
      unfold pageFreeBits
      rw [hb]
      exact List.mem_map.mpr ⟨_, List.mem_range.mpr (by omega), rfl⟩
    have := hright.bits _ hmem
    omega
  have hle : b + n ≤ p.pages := by rwa [Nat.mod_eq_of_lt hwrap] at hsum
  refine ⟨hle, usedCount_eq_zero.mp ?_⟩
  obtain ⟨hcnt, hcount⟩ := @clearRun_used n b p.pages p.bmp p.freeCnt hle
  have hold := h.count
  have hfull : freeCount (bit (clearRun n b (p.bmp, p.freeCnt)).1) p.pages ≤ p.pages :=
    Nat.count_le _
  change p.freeCnt = freeCount (bit p.bmp) p.pages at hold
  have hloop := clearPages_eq p.bmp p.freeCnt hwrap
  rw [Nat.mod_eq_of_lt (show p.freeCnt < 2 ^ 32 by omega)] at hloop
  have hsame : (p.pageFree ptr n).freeCnt = p.freeCnt := congrArg PagePool.freeCnt (hright.refused hin)
  unfold pageFree at hsame
  rw [hb] at hsame
  dsimp only at hsame
  rw [hloop] at hsame
  dsimp only at hsame
  change usedCount (bit p.bmp) n b = 0
  omega

/-- One call in a state that the pool's own invariant describes. -/
theorem freeRight_iff (hptr : ptr < 2 ^ 64) (hn : n < 2 ^ 32) :
    FreeRight p ptr n ↔ p.freeGuard ptr n := by
  by_cases hin : p.inside ptr n
  · obtain ⟨-, hoff, hle⟩ := inside_place h hin
    rw [← hoff] at hle
    exact iff_of_true (pageFree_inside h hin) (.inr (.inr (.inr (.inl hle))))
  have hbase := freeBase_eq h ptr n
  by_cases hstop : ptr = 0 ∨ p.offset ptr % PAGE_SIZE ≠ 0 ∨
      p.pages < (p.offset ptr / PAGE_SIZE % 2 ^ 32 + n) % 2 ^ 32
  · rw [if_pos hstop] at hbase
    refine iff_of_true (.of_none hin hbase) (.inr ?_)
    exact hstop.imp_right fun h => h.imp_right fun h => .inr (.inl h)
  · rw [if_neg hstop] at hbase
    rw [not_or, not_or, not_not, Nat.not_lt] at hstop
    obtain ⟨h0, hoff, hsum⟩ := hstop
    constructor
    · intro hright
      exact .inr (.inr (.inr (.inr (.inr
        (hright.free_of_some h hin hbase (Nat.mod_lt _ (by decide)) hsum)))))
    · rintro (rfl | h0' | hoff' | hle | hgt | ⟨hle, hfree⟩)
      · refine ⟨fun h => absurd h hin, fun _ => ?_, fun i hi => ?_⟩
        · unfold pageFree
          rw [hbase]
          rfl
        · unfold pageFreeBits at hi
          rw [hbase] at hi
          cases hi
      · exact absurd h0' h0
      · exact absurd hoff hoff'
      · exact absurd ((inside_iff h hptr h0 hoff).mpr hle) hin
      · exact absurd hsum (Nat.not_le.mpr hgt)
      · exact .of_free hin hbase hle h.pages hfree

/-- A call that the guard admits keeps the pool's invariant. -/
theorem PoolCounts.free (hright : FreeRight p ptr n) : PoolCounts (p.pageFree ptr n) := by
  by_cases hin : p.inside ptr n
  · obtain ⟨hplace, -, hle⟩ := inside_place h hin
    obtain ⟨hcnt, hcount⟩ := @clearRun_used n ((ptr - p.pool) / PAGE_SIZE) p.pages p.bmp p.freeCnt hle
    rw [(pageFree_eq h hplace hle).2]
    refine ⟨h.base, h.pages, h.fits, ?_⟩
    change (clearRun n _ (p.bmp, p.freeCnt)).2 = freeCount (bit (clearRun n _ (p.bmp, p.freeCnt)).1) p.pages
    rw [hcnt, hcount]
    exact congrArg (· + _) h.count
  · rw [hright.refused hin]
    exact h

theorem PoolCounts.alloc (n : Nat) : PoolCounts (p.pageAlloc n).2 := by
  rcases pageAlloc_cases h n with ⟨hrun, -⟩ | ⟨b, hn, ⟨hb, hfree, -⟩, hrun⟩
  · rw [hrun]
    exact h
  · rw [hrun]
    refine ⟨h.base, h.pages, h.fits, ?_⟩
    have hcount := freeCount_setRun hfree hb
    have hold := h.count
    change p.freeCnt - n = freeCount (bit (setRun n b p.bmp)) p.pages
    change p.freeCnt = freeCount (bit p.bmp) p.pages at hold
    omega

theorem PoolCounts.init {base bytes : Nat} (hbase : base < 2 ^ 64)
    (fits : (p.pageInit base bytes).1 = 0 →
      base + (p.pageInit base bytes).2.pages * PAGE_SIZE ≤ 2 ^ 64) :
    PoolCounts (p.pageInit base bytes).2 := by
  rcases pageInit_cases p base bytes with hrun | ⟨pages, hne, halign, hmax, hrun⟩
  · rw [hrun]
    exact h
  · rw [hrun] at fits ⊢
    exact ⟨⟨hne, halign, hbase⟩, hmax, fits rfl, (freeCount_zeroed p.bmp hmax).symm⟩

end Call

theorem PageReach.counts {p : PagePool} (h : PageReach p) : PoolCounts p := by
  induction h with
  | @static base h fits =>
    have hlt : base < 2 ^ 64 := by
      unfold PAGE_SIZE at fits
      omega
    have hmax : 8 ≤ PAGE_MAX := by decide
    have hcount : 8 = freeCount (bit fun _ => 0) 8 := by decide
    exact ⟨⟨h.1, h.2, hlt⟩, hmax, fits, hcount⟩
  | init _ hbase fits ih => exact ih.init hbase fits
  | alloc _ _ ih => exact ih.alloc _
  | free _ hptr hn guard ih => exact ih.free ((freeRight_iff ih hptr hn).mpr guard)

/-- In every state reached, `page_free` does what it is to do with exactly the addresses and
numbers that the guard admits. -/
theorem page_free_right_iff {p : PagePool} (h : PageReach p) {ptr n : Nat} (hptr : ptr < 2 ^ 64)
    (hn : n < 2 ^ 32) : FreeRight p ptr n ↔ p.freeGuard ptr n := freeRight_iff h.counts hptr hn

/-- The static pool at 1 MiB, whose first page was taken. -/
def onePage : PagePool := ((staticPool 0x100000).pageAlloc 1).2

theorem onePage_reach : PageReach onePage :=
  .alloc (.static (by decide) (by decide)) (by decide)

/-- The page that was taken can be released. -/
theorem page_free_right_own : FreeRight onePage 0x100000 1 :=
  (page_free_right_iff onePage_reach (by decide) (by decide)).mpr
    (.inr (.inr (.inr (.inl (by decide)))))

/-- An address 2^44 bytes behind the pool releases the page all the same. -/
theorem page_free_far_address : PageReach onePage ∧ onePage.pageIsUsed 0 = true ∧
    ¬ onePage.inside (0x100000 + 2 ^ 44) 1 ∧
    (onePage.pageFree (0x100000 + 2 ^ 44) 1).pageIsUsed 0 = false ∧
    ¬ FreeRight onePage (0x100000 + 2 ^ 44) 1 := by
  have hout : ¬ onePage.inside (0x100000 + 2 ^ 44) 1 := fun h => absurd h.2.2.2 (by decide)
  have hused : onePage.pageIsUsed 0 = true := by decide
  have hfreed : (onePage.pageFree (0x100000 + 2 ^ 44) 1).pageIsUsed 0 = false := by decide
  refine ⟨onePage_reach, hused, hout, hfreed, fun hright => ?_⟩
  rw [hright.refused hout, hused] at hfreed
  cases hfreed

end WinDOS
