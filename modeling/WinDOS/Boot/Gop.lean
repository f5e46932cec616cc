import WinDOS.Boot.Pitch
import WinDOS.Draw.Blit

/-!
# The graphics mode (`main.rs`)

The boot loader asks the firmware for its modes and sets the first one of exactly 1920 x 1080. The
kernel has a pixel of `back_buf` and a byte of `lm_map` for each pixel of that mode, whatever the
mode in the end is.
-/

set_option autoImplicit false

namespace WinDOS

/-- `GopInfo`, as far as it is read. -/
structure GopInfo where
  hr : Nat
  vr : Nat
  stride : Nat
deriving DecidableEq

/-- The graphics output protocol of the firmware. A query that fails or hands out a null pointer
gives `none`; it leaves the mode alone. `setMode` returns the status, 0 for success. -/
structure Gop (σ : Type) where
  queryMode : σ → Nat → Option GopInfo
  setMode : σ → Nat → Nat × σ
  maxMode : σ → Nat
  mode : σ → Nat
  info : σ → Option GopInfo

/-- What the firmware promises: after a mode is set the mode structure describes it, a refused
one changes nothing there, and no line is shorter than its pixels. -/
structure Gop.Conformant {σ : Type} (g : Gop σ) : Prop where
  set : ∀ s i gi, g.queryMode s i = some gi → (g.setMode s i).1 = 0 →
    g.info (g.setMode s i).2 = some gi
  refused : ∀ s i, (g.setMode s i).1 ≠ 0 → g.info (g.setMode s i).2 = g.info s
  queryPitch : ∀ s i gi, g.queryMode s i = some gi → gi.hr ≤ gi.stride
  infoPitch : ∀ s gi, g.info s = some gi → gi.hr ≤ gi.stride

namespace Gop

variable {σ : Type}

/-- `gi.hr == 1920 && gi.vr == 1080`, of a mode that can be asked for. -/
def exact (g : Gop σ) (s : σ) (i : Nat) : Bool :=
  match g.queryMode s i with
  | some gi => gi.hr == 1920 && gi.vr == 1080
  | none => false

/-- The size before the search: of the current mode, else of mode 0, else nothing. -/
def asked (g : Gop σ) (s : σ) : GopInfo :=
  match g.queryMode s (g.mode s) with
  | some gi => gi
  | none =>
    match g.queryMode s 0 with
    | some gi => gi
    | none => ⟨0, 0, 0⟩

/-- The search from mode `i` on, `n` modes at most. It ends with the first mode of that size,
also if the firmware refuses to set it. -/
def search (g : Gop σ) (s : σ) : Nat → Nat → σ
  | 0, _ => s
  | n + 1, i => if g.exact s i then (g.setMode s i).2 else g.search s n (i + 1)

/-- `Mode->Info` is read again: a size of 0 does not count. -/
def reread (g : Gop σ) (s : σ) (first : GopInfo) : GopInfo :=
  match g.info s with
  | some gi => if gi.hr ≠ 0 ∧ gi.vr ≠ 0 then gi else first
  | none => first

/-- `hr`, `vr` and `stride` of `BootInfo`. -/
def chooseMode (g : Gop σ) (s : σ) : GopInfo :=
  g.reread (g.search s (g.maxMode s) 0) (g.asked s)

/-- The size without a search: that of the mode the firmware has left. -/
def left (g : Gop σ) (s : σ) : GopInfo := g.reread s (g.asked s)

/-- The first mode of 1920 x 1080 is among those of the firmware, and it can be set. -/
def SetsExact (g : Gop σ) (s : σ) : Prop :=
  ∃ i < g.maxMode s, g.exact s i = true ∧ (∀ j < i, g.exact s j = false) ∧ (g.setMode s i).1 = 0

/-! ### The search -/

variable {g : Gop σ} {s : σ} {i : Nat}

theorem exact_iff : g.exact s i = true ↔
    ∃ gi, g.queryMode s i = some gi ∧ gi.hr = 1920 ∧ gi.vr = 1080 := by
  unfold exact
  cases g.queryMode s i with
  | none => simp
  | some gi => simp

/-- The search sets the first mode of the size, or none is there and nothing is set. -/
theorem search_cases (n i : Nat) :
    (∃ j, i ≤ j ∧ j < i + n ∧ g.exact s j = true ∧ (∀ k, i ≤ k → k < j → g.exact s k = false) ∧
      g.search s n i = (g.setMode s j).2) ∨
    ((∀ j, i ≤ j → j < i + n → g.exact s j = false) ∧ g.search s n i = s) := by
  induction n generalizing i with
  | zero => exact Or.inr ⟨fun j h1 h2 => absurd h2 (by omega), rfl⟩
  | succ n ih =>
    rw [search]
    by_cases hi : g.exact s i = true
    · rw [if_pos hi]
      exact Or.inl ⟨i, Nat.le_refl i, by omega, hi, fun k h1 h2 => absurd h2 (by omega), rfl⟩
    · rw [if_neg hi]
      have hno : ∀ k, i ≤ k → ¬ i + 1 ≤ k → g.exact s k = false := by
        intro k h1 h2
        have hk : k = i := by omega
        rw [hk]
        exact Bool.eq_false_iff.mpr hi
      rcases ih (i + 1) with ⟨j, h1, h2, hj, hbefore, heq⟩ | ⟨hnone, heq⟩
      · refine Or.inl ⟨j, by omega, by omega, hj, ?_, heq⟩
        intro k hk hkj
        by_cases hik : i + 1 ≤ k
        · exact hbefore k hik hkj
        · exact hno k hk hik
      · refine Or.inr ⟨?_, heq⟩
        intro k hk hkn
        by_cases hik : i + 1 ≤ k
        · exact hnone k hik (by omega)
        · exact hno k hk hik

theorem reread_congr {s' : σ} (first : GopInfo) (h : g.info s' = g.info s) :
    g.reread s' first = g.reread s first := by
  unfold reread
  rw [h]

theorem reread_of_info {gi first : GopInfo} (h : g.info s = some gi) (hh : gi.hr ≠ 0)
    (hv : gi.vr ≠ 0) : g.reread s first = gi := by
  unfold reread
  rw [h]
  exact if_pos ⟨hh, hv⟩

/-- The mode is 1920 x 1080, or the one that the firmware has left. -/
theorem chooseMode_cases (hg : g.Conformant) (s : σ) :
    (g.SetsExact s ∧ (g.chooseMode s).hr = 1920 ∧ (g.chooseMode s).vr = 1080) ∨
    (¬ g.SetsExact s ∧ g.chooseMode s = g.left s) := by
  rcases search_cases (g := g) (s := s) (g.maxMode s) 0 with
    ⟨j, -, hlt, hj, hbefore, heq⟩ | ⟨hnone, heq⟩
  · by_cases hst : (g.setMode s j).1 = 0
    · obtain ⟨gi, hq, hh, hv⟩ := exact_iff.mp hj
      have hc : g.chooseMode s = gi := by
        rw [chooseMode, heq]
        exact reread_of_info (hg.set s j gi hq hst) (by omega) (by omega)
      refine Or.inl ⟨⟨j, by omega, hj, fun k hk => hbefore k (Nat.zero_le k) hk, hst⟩, ?_, ?_⟩
      · rw [hc, hh]
      · rw [hc, hv]
    · refine Or.inr ⟨?_, ?_⟩
      · rintro ⟨i, -, hi, hfirst, hset⟩
        -- both are the first mode of the size
        have hij : i = j := by
          rcases Nat.lt_trichotomy i j with h | h | h
          · exact absurd hi (by rw [hbefore i (Nat.zero_le i) h]; exact Bool.false_ne_true)
          · exact h
          · exact absurd hj (by rw [hfirst j h]; exact Bool.false_ne_true)
        exact hst (hij ▸ hset)
      · rw [chooseMode, heq]
        exact reread_congr _ (hg.refused s j hst)
  · refine Or.inr ⟨?_, ?_⟩
    · rintro ⟨i, hi, hex, -⟩
      exact absurd hex (by rw [hnone i (Nat.zero_le i) (by omega)]; exact Bool.false_ne_true)
    · rw [chooseMode, heq]
      rfl

/-! ### What the kernel makes of it -/

theorem asked_pitch (hg : g.Conformant) (s : σ) : (g.asked s).hr ≤ (g.asked s).stride := by
  unfold asked
  split
  · exact hg.queryPitch _ _ _ ‹_›
  · split
    · exact hg.queryPitch _ _ _ ‹_›
    · exact Nat.le_refl 0

theorem reread_pitch (hg : g.Conformant) (s : σ) {first : GopInfo} (h : first.hr ≤ first.stride) :
    (g.reread s first).hr ≤ (g.reread s first).stride := by
  unfold reread
  split
  · split
    · exact hg.infoPitch _ _ ‹_›
    · exact h
  · exact h

/-- The frame buffer that the kernel finds in `BootInfo`. -/
def geometry (g : Gop σ) (hg : g.Conformant) (s : σ) : Geometry where
  hr := (g.chooseMode s).hr
  vr := (g.chooseMode s).vr
  stride := (g.chooseMode s).stride
  le := reread_pitch hg _ (asked_pitch hg s)

end Gop

/-- The pixels of `back_buf[1920*1080]`; `lm_map` has as many bytes. -/
def backPixels : Int := 1920 * 1080

/-- `back_buf[y*hr+x]`, the cells that `_start` fills. -/
def Geometry.backCells (m : Geometry) : Set Int :=
  {i | ∃ y x : Nat, y < m.vr ∧ x < m.hr ∧ i = u32 (y * m.hr + x)}

/-- The cells lie in the array exactly if the screen has no more pixels than it. The index has 32
bits, but the first cell behind the array is met before it wraps. -/
theorem Geometry.backCells_iff (m : Geometry) :
    (∀ i ∈ m.backCells, i < backPixels) ↔ m.hr * m.vr ≤ 1920 * 1080 := by
  constructor
  · intro h
    by_contra hbig
    have hpos : 0 < m.hr := Nat.pos_of_ne_zero fun h0 => hbig (by rw [h0]; omega)
    have hrow : 1920 * 1080 / m.hr < m.vr :=
      Nat.div_lt_of_lt_mul (Nat.lt_of_not_le hbig)
    have hcol : 1920 * 1080 % m.hr < m.hr := Nat.mod_lt _ hpos
    have hcell : ((1920 * 1080 / m.hr : Nat) : Int) * m.hr + ((1920 * 1080 % m.hr : Nat) : Int) =
        1920 * 1080 := by
      exact_mod_cast Nat.div_add_mod' (1920 * 1080) m.hr
    have hin := h _ ⟨_, _, hrow, hcol, rfl⟩
    rw [hcell, u32_of_lt (by decide) (by decide)] at hin
    exact absurd hin (by decide)
  · rintro hle i ⟨y, x, hy, hx, rfl⟩
    have hlt : y * m.hr + x < m.hr * m.vr :=
      calc y * m.hr + x < y * m.hr + m.hr := Nat.add_lt_add_left hx _
        _ = (y + 1) * m.hr := (Nat.succ_mul y m.hr).symm
        _ ≤ m.vr * m.hr := Nat.mul_le_mul_right _ hy
        _ = m.hr * m.vr := Nat.mul_comm _ _
    have hcell : (y : Int) * m.hr + x < 1920 * 1080 := by
      exact_mod_cast Nat.lt_of_lt_of_le hlt hle
    have hnonneg : 0 ≤ (y : Int) * m.hr + x :=
      Int.add_nonneg (Int.mul_nonneg (Int.natCast_nonneg y) (Int.natCast_nonneg m.hr))
        (Int.natCast_nonneg x)
    rw [u32_of_lt hnonneg (by omega)]
    exact hcell

/-- The background fits into its buffer exactly if the loader could set 1920 x 1080 or the mode
that the firmware has left has no more pixels: the loader refuses no mode. -/
theorem Gop.back_buf_fits_iff {σ : Type} (g : Gop σ) (hg : g.Conformant) (s : σ) :
    (∀ i ∈ (g.geometry hg s).backCells, i < backPixels) ↔
      g.SetsExact s ∨ (g.left s).hr * (g.left s).vr ≤ 1920 * 1080 := by
  rw [Geometry.backCells_iff]
  change (g.chooseMode s).hr * (g.chooseMode s).vr ≤ 1920 * 1080 ↔ _
  rcases chooseMode_cases hg s with ⟨hset, hh, hv⟩ | ⟨hno, heq⟩
  · rw [hh, hv]
    exact ⟨fun _ => Or.inl hset, fun _ => Nat.le_refl _⟩
  · rw [heq]
    constructor
    · exact Or.inr
    · rintro (hset | hle)
      · exact absurd hset hno
      · exact hle

/-- Two modes, 3840 x 2160 and 1280 x 800, the first one set. -/
def fourK : Gop Nat where
  queryMode _ i := [(⟨3840, 2160, 3840⟩ : GopInfo), ⟨1280, 800, 1280⟩][i]?
  setMode s i := if i < 2 then (0, i) else (3, s)
  maxMode _ := 2
  mode s := s
  info s := [(⟨3840, 2160, 3840⟩ : GopInfo), ⟨1280, 800, 1280⟩][s]?

theorem fourK_pitch (i : Nat) (gi : GopInfo)
    (h : [(⟨3840, 2160, 3840⟩ : GopInfo), ⟨1280, 800, 1280⟩][i]? = some gi) :
    gi.hr ≤ gi.stride := by
  have hmem := List.mem_of_getElem? h
  simp only [List.mem_cons, List.not_mem_nil, or_false] at hmem
  rcases hmem with rfl | rfl
  · exact Nat.le_refl _
  · exact Nat.le_refl _

theorem fourK_conformant : fourK.Conformant where
  set s i gi hq _ := by
    have hi : i < 2 := (List.getElem?_eq_some_iff.mp hq).1
    change [(⟨3840, 2160, 3840⟩ : GopInfo), ⟨1280, 800, 1280⟩][(if i < 2 then (0, i) else (3, s)).2]?
      = some gi
    rw [if_pos hi]
    exact hq
  refused s i hst := by
    by_cases hi : i < 2
    · exact absurd (show (if i < 2 then (0, i) else (3, s)).1 = 0 by rw [if_pos hi]) hst
    · change fourK.info (if i < 2 then (0, i) else (3, s)).2 = _
      rw [if_neg hi]
  queryPitch _ i gi h := fourK_pitch i gi h
  infoPitch s gi h := fourK_pitch s gi h

/-- A firmware that has left 3840 x 2160 and has no mode of the size: the background is written
past its buffer. -/
theorem Gop.back_buf_fits_fourK :
    ¬ ∀ i ∈ (fourK.geometry fourK_conformant 0).backCells, i < backPixels := by
  rw [Gop.back_buf_fits_iff fourK fourK_conformant 0]
  rintro (⟨i, hi, hex, -⟩ | hle)
  · change i < 2 at hi
    have hnone : ∀ j < 2, fourK.exact 0 j = false := by decide
    exact absurd hex (by rw [hnone i hi]; exact Bool.false_ne_true)
  · exact absurd hle (by decide)

end WinDOS
