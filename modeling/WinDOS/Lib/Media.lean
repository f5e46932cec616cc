import WinDOS.Lib.Bytes

/-!
# Block devices that may fail

Several devices, each a byte buffer in sectors of 512 bytes with a sequence of faults: its
command with number `n` fails if `faults d n` is set. A write that fails may have stored some
of its sectors.
-/

set_option autoImplicit false

open Bytes

structure Media (ι : Type) where
  data : ι → Buf
  /-- For a command that fails: which of its sectors were stored all the same. -/
  faults : ι → Nat → Option (Nat → Bool)
  /-- The commands issued to each device so far. -/
  issued : ι → Nat

namespace Media

variable {ι : Type} [DecidableEq ι]

def tick (m : Media ι) (d : ι) : Media ι :=
  { m with issued := Function.update m.issued d (m.issued d + 1) }

/-- Byte `i` of a sector. -/
def sector (m : Media ι) (d : ι) (lba : Nat) : Buf := from_ (m.data d) (lba * 512)

/-- The sectors from `lba` on, or an error. -/
def read (m : Media ι) (d : ι) (lba : Nat) : Option Buf × Media ι :=
  match m.faults d (m.issued d) with
  | none => (some (m.sector d lba), m.tick d)
  | some _ => (none, m.tick d)

def store (m : Media ι) (d : ι) (lba cnt : Nat) (buf : Buf) (kept : Nat → Bool) : Media ι :=
  { m with
    data := Function.update m.data d fun i =>
      if lba * 512 ≤ i ∧ i < (lba + cnt) * 512 ∧ kept (i / 512 - lba) then buf (i - lba * 512)
      else m.data d i }

/-- `true` if the write has succeeded. -/
def write (m : Media ι) (d : ι) (lba cnt : Nat) (buf : Buf) : Bool × Media ι :=
  match m.faults d (m.issued d) with
  | none => (true, (m.store d lba cnt buf fun _ => true).tick d)
  | some kept => (false, (m.store d lba cnt buf kept).tick d)

section Sector

variable {m : Media ι} {d : ι} {lba cnt s i : Nat} {buf : Buf}

theorem sector_store_out (h : s < lba ∨ lba + cnt ≤ s) (hi : i < 512) (kept : Nat → Bool) :
    (m.store d lba cnt buf kept).sector d s i = m.sector d s i := by
  simp only [sector, store, from_, Function.update_self]
  rw [if_neg (by omega)]

theorem sector_store_kept {kept : Nat → Bool} (h0 : lba ≤ s) (h1 : s < lba + cnt)
    (hk : kept (s - lba) = true) (hi : i < 512) :
    (m.store d lba cnt buf kept).sector d s i = buf ((s - lba) * 512 + i) := by
  simp only [sector, store, from_, Function.update_self]
  rw [if_pos ⟨by omega, by omega, by rwa [show (s * 512 + i) / 512 = s by omega]⟩]
  congr 1
  omega

theorem sector_store_lost {kept : Nat → Bool} (hk : kept (s - lba) = false) (hi : i < 512) :
    (m.store d lba cnt buf kept).sector d s i = m.sector d s i := by
  simp only [sector, store, from_, Function.update_self]
  rw [if_neg]
  rintro ⟨-, -, h⟩
  rw [show (s * 512 + i) / 512 = s by omega, hk] at h
  cases h

end Sector

/-- Sector `j` of the write with command number `n` is stored. -/
def keeps {κ : Type} (m : Media κ) (d : κ) (n j : Nat) : Bool :=
  match m.faults d n with
  | none => true
  | some kept => kept j

/-! ### What a write leaves in its sectors -/

/-- `new` is `old` after a write: of its `cnt` sectors those in `stored` are at their places. -/
structure Stores (old new : Nat → Buf) (cnt : Nat) (stored : Nat → Prop) (place : Nat → Nat)
    (content : Nat → Buf) : Prop where
  inside : ∀ j < cnt, stored j → ∀ i < 512, new (place j) i = content j i
  outside : ∀ a, (∀ j < cnt, stored j → a ≠ place j) → ∀ i < 512, new a i = old a i

section Stores

variable {old new : Nat → Buf} {cnt : Nat} {stored : Nat → Prop} {place : Nat → Nat}
  {content : Nat → Buf} (h : Stores old new cnt stored place content)
include h

/-- The sectors of `Q` are those of `base` after a write exactly if the stored ones among them
are, and the others were before. -/
theorem Stores.same_iff (Q : Nat → Prop) (base : Nat → Buf) :
    (∀ a, Q a → ∀ i < 512, new a i = base a i) ↔
      (∀ j < cnt, stored j → Q (place j) → ∀ i < 512, content j i = base (place j) i) ∧
      ∀ a, (Q a ∧ ∀ j < cnt, stored j → a ≠ place j) → ∀ i < 512, old a i = base a i := by
  constructor
  · intro hsame
    refine ⟨fun j hj hst hq i hi => ?_, fun a ⟨hq, hout⟩ i hi => ?_⟩
    · rw [← h.inside j hj hst i hi]
      exact hsame (place j) hq i hi
    · rw [← h.outside a hout i hi]
      exact hsame a hq i hi
  · rintro ⟨hin, hrest⟩ a hq i hi
    by_cases hex : ∃ j < cnt, stored j ∧ a = place j
    · obtain ⟨j, hj, hst, rfl⟩ := hex
      rw [h.inside j hj hst i hi]
      exact hin j hj hst hq i hi
    · have hout : ∀ j < cnt, stored j → a ≠ place j := fun j hj hst heq => hex ⟨j, hj, hst, heq⟩
      rw [h.outside a hout i hi]
      exact hrest a ⟨hq, hout⟩ i hi

theorem Stores.congr {stored' : Nat → Prop} {content' : Nat → Buf}
    (hst : ∀ j < cnt, stored' j ↔ stored j)
    (hcontent : ∀ j < cnt, ∀ i < 512, content' j i = content j i) :
    Stores old new cnt stored' place content' where
  inside j hj h' i hi := (h.inside j hj ((hst j hj).mp h') i hi).trans (hcontent j hj i hi).symm
  outside a ha i hi := h.outside a (fun j hj h' => ha j hj ((hst j hj).mpr h')) i hi

end Stores

theorem Stores.zero (old : Nat → Buf) (stored : Nat → Prop) (place : Nat → Nat)
    (content : Nat → Buf) : Stores old old 0 stored place content where
  inside j hj := absurd hj (Nat.not_lt_zero j)
  outside _ _ _ _ := rfl

theorem Stores.cons {old mid new : Nat → Buf} {cnt : Nat} {stored : Nat → Prop}
    {place : Nat → Nat} {content : Nat → Buf}
    (h0 : Stores old mid 1 (fun _ => stored 0) (fun _ => place 0) fun _ => content 0)
    (h : Stores mid new cnt (fun j => stored (j + 1)) (fun j => place (j + 1))
      fun j => content (j + 1)) (hne : ∀ j < cnt, place (j + 1) ≠ place 0) :
    Stores old new (cnt + 1) stored place content where
  inside j hj hst i hi := by
    cases j with
    | zero =>
      rw [h.outside (place 0) (fun j hj _ => (hne j hj).symm) i hi]
      exact h0.inside 0 Nat.one_pos hst i hi
    | succ j => exact h.inside j (by omega) hst i hi
  outside a ha i hi := by
    rw [h.outside a (fun j hj hst => ha (j + 1) (by omega) hst) i hi]
    exact h0.outside a (fun _ _ hst => ha 0 (by omega) hst) i hi

theorem Stores.only {old new : Nat → Buf} {cnt : Nat} {stored : Nat → Prop} {place : Nat → Nat}
    {content : Nat → Buf}
    (h0 : Stores old new 1 (fun _ => stored 0) (fun _ => place 0) fun _ => content 0)
    (hno : ∀ j, ¬ stored (j + 1)) : Stores old new (cnt + 1) stored place content where
  inside j hj hst i hi := by
    cases j with
    | zero => exact h0.inside 0 Nat.one_pos hst i hi
    | succ j => exact absurd hst (hno j)
  outside a ha i hi := h0.outside a (fun _ _ hst => ha 0 (by omega) hst) i hi

/-! ### Commands with and without a fault -/

section Commands

variable {m : Media ι} {d : ι}

theorem read_ok (h : m.faults d (m.issued d) = none) (lba : Nat) :
    m.read d lba = (some (m.sector d lba), m.tick d) := by
  rw [read, h]

theorem read_fail (h : m.faults d (m.issued d) ≠ none) (lba : Nat) :
    m.read d lba = (none, m.tick d) := by
  obtain ⟨kept, hk⟩ := Option.ne_none_iff_exists'.mp h
  rw [read, hk]

theorem keeps_of_ok {κ : Type} {m : Media κ} {d : κ} {n : Nat} (h : m.faults d n = none) (j : Nat) :
    m.keeps d n j = true := by
  rw [keeps, h]

/-- A write of some sectors stores those that it keeps, and succeeds without a fault. -/
theorem write_effect (m : Media ι) (d : ι) (lba cnt : Nat) (buf : Buf) :
    ∃ m', m.write d lba cnt buf = ((m.faults d (m.issued d)).isNone, m') ∧
      m'.faults = m.faults ∧ m'.issued d = m.issued d + 1 ∧
      Stores (m.sector d) (m'.sector d) cnt (fun j => m.keeps d (m.issued d) j = true)
        (fun j => lba + j) fun j i => buf (j * 512 + i) := by
  have hissued : ∀ m' : Media ι, (m'.tick d).issued d = m'.issued d + 1 := fun m' =>
    Function.update_self ..
  have hstores : ∀ kept : Nat → Bool, (∀ j, m.keeps d (m.issued d) j = kept j) →
      Stores (m.sector d) (((m.store d lba cnt buf kept).tick d).sector d) cnt
        (fun j => m.keeps d (m.issued d) j = true) (fun j => lba + j)
        fun j i => buf (j * 512 + i) := fun kept hkeeps => by
    refine ⟨fun j hj hk i hi => ?_, fun a ha i hi => ?_⟩
    · rw [hkeeps] at hk
      have hin : (m.store d lba cnt buf kept).sector d (lba + j) i =
          buf ((lba + j - lba) * 512 + i) := sector_store_kept (by omega) (by omega)
        (by rwa [Nat.add_sub_cancel_left]) hi
      rwa [Nat.add_sub_cancel_left] at hin
    · change (m.store d lba cnt buf kept).sector d a i = _
      by_cases hin : lba ≤ a ∧ a < lba + cnt
      · refine sector_store_lost ?_ hi
        by_contra hk
        exact ha (a - lba) (by omega) (by rw [hkeeps]; simpa using hk) (by omega)
      · exact sector_store_out (by omega) hi _
  rcases hf : m.faults d (m.issued d) with _ | kept
  · exact ⟨(m.store d lba cnt buf fun _ => true).tick d, by rw [write, hf]; rfl, rfl, hissued _,
      hstores _ (keeps_of_ok hf)⟩
  · exact ⟨(m.store d lba cnt buf kept).tick d, by rw [write, hf]; rfl, rfl, hissued _,
      hstores _ fun j => by rw [keeps, hf]⟩

end Commands

end Media
