import WinDOS.Window.AtPixel

/-!
# Strokes

What happens to the colour of one screen pixel when sheets are drawn over it: a stroke
puts a colour or dims every channel, clamped at zero. Consecutive dimming adds up, and a
put forgets what was there, so a run of strokes comes down to the last put and the sum
of the depths after it.
-/

set_option autoImplicit false

namespace WinDOS

namespace Pixel

theorem append_toNat {n : Nat} (x : BitVec n) (y : BitVec 8) :
    (x ++ y).toNat = x.toNat * 256 + y.toNat := by
  rw [BitVec.toNat_append, ← Nat.shiftLeft_add_eq_or_of_lt y.isLt, Nat.shiftLeft_eq]

theorem pack_toNat (r g b : BitVec 8) :
    (pack r g b).toNat = (r.toNat * 256 + g.toNat) * 256 + b.toNat := by
  have h : (pack r g b).toNat = ((0#8).toNat * 256 + r.toNat) * 256 * 256 + g.toNat * 256 + b.toNat := by
    refine (append_toNat (0#8 ++ r ++ g) b).trans ?_
    rw [append_toNat (0#8 ++ r) g, append_toNat 0#8 r]
    omega
  rw [h]
  simp
  omega

theorem high_toNat (p : Pixel) : p.high.toNat = p.toNat / 2 ^ 24 % 256 := by
  rw [high, BitVec.extractLsb'_toNat, Nat.shiftRight_eq_div_pow]

theorem red_toNat (p : Pixel) : p.red.toNat = p.toNat / 2 ^ 16 % 256 := by
  rw [red, BitVec.extractLsb'_toNat, Nat.shiftRight_eq_div_pow]

theorem green_toNat (p : Pixel) : p.green.toNat = p.toNat / 2 ^ 8 % 256 := by
  rw [green, BitVec.extractLsb'_toNat, Nat.shiftRight_eq_div_pow]

theorem blue_toNat (p : Pixel) : p.blue.toNat = p.toNat / 2 ^ 0 % 256 := by
  rw [blue, BitVec.extractLsb'_toNat, Nat.shiftRight_eq_div_pow]

section Pack

variable (r g b : BitVec 8)

@[simp] theorem pack_high : (pack r g b).high = 0 := by
  apply BitVec.eq_of_toNat_eq
  have hr := r.isLt
  have hg := g.isLt
  have hb := b.isLt
  rw [high_toNat, pack_toNat]
  change _ = 0
  omega

@[simp] theorem pack_red : (pack r g b).red = r := by
  apply BitVec.eq_of_toNat_eq
  have hr := r.isLt
  have hg := g.isLt
  have hb := b.isLt
  rw [red_toNat, pack_toNat]
  omega

@[simp] theorem pack_green : (pack r g b).green = g := by
  apply BitVec.eq_of_toNat_eq
  have hg := g.isLt
  have hb := b.isLt
  rw [green_toNat, pack_toNat]
  omega

@[simp] theorem pack_blue : (pack r g b).blue = b := by
  apply BitVec.eq_of_toNat_eq
  have hb := b.isLt
  rw [blue_toNat, pack_toNat]
  omega

end Pack

theorem pack_of_high {p : Pixel} (h : p.high = 0) : pack p.red p.green p.blue = p := by
  apply BitVec.eq_of_toNat_eq
  have hp := p.isLt
  have hh := high_toNat p
  have hz : (0 : BitVec 8).toNat = 0 := rfl
  rw [h, hz] at hh
  rw [pack_toNat, red_toNat, green_toNat, blue_toNat]
  omega

theorem isShadow_eq_false {p : Pixel} : p.isShadow = false ↔ p.high = 0 := by
  simp [isShadow]

end Pixel

/-- A channel made darker by `n`, clamped at zero. -/
def dimByte (c : BitVec 8) (n : Nat) : BitVec 8 := BitVec.ofNat 8 (c.toNat - n)

theorem dimByte_toNat (c : BitVec 8) (n : Nat) : (dimByte c n).toNat = c.toNat - n := by
  have hc := c.isLt
  rw [dimByte, BitVec.toNat_ofNat]
  omega

theorem dimByte_zero (c : BitVec 8) : dimByte c 0 = c := by
  apply BitVec.eq_of_toNat_eq
  rw [dimByte_toNat, Nat.sub_zero]

theorem dimByte_add (c : BitVec 8) (m n : Nat) : dimByte (dimByte c m) n = dimByte c (m + n) := by
  apply BitVec.eq_of_toNat_eq
  rw [dimByte_toNat, dimByte_toNat, dimByte_toNat, Nat.sub_sub]

theorem dimByte_inj {c : BitVec 8} {m n : Nat} :
    dimByte c m = dimByte c n ↔ min c.toNat m = min c.toNat n := by
  rw [← BitVec.toNat_inj, dimByte_toNat, dimByte_toNat]
  omega

namespace Pixel

/-- All channels made darker; the marker byte is cleared. -/
def dim (p : Pixel) (n : Nat) : Pixel := pack (dimByte p.red n) (dimByte p.green n) (dimByte p.blue n)

/-- The depths `m` and `n` make no difference on any channel. -/
def SameDim (p : Pixel) (m n : Nat) : Prop :=
  min p.red.toNat m = min p.red.toNat n ∧ min p.green.toNat m = min p.green.toNat n ∧
    min p.blue.toNat m = min p.blue.toNat n

/-- Every channel is at most `n`. -/
def AtMost (p : Pixel) (n : Nat) : Prop := p.red.toNat ≤ n ∧ p.green.toNat ≤ n ∧ p.blue.toNat ≤ n

theorem sameDim_double {p : Pixel} {n : Nat} : p.SameDim n (n + n) ↔ n = 0 ∨ p.AtMost n := by
  unfold SameDim AtMost
  omega

theorem sameDim_zero {p : Pixel} {n : Nat} : p.SameDim n 0 ↔ n = 0 ∨ p.AtMost 0 := by
  unfold SameDim AtMost
  omega

theorem dim_high (p : Pixel) (n : Nat) : (p.dim n).high = 0 := pack_high _ _ _

theorem dim_zero {p : Pixel} (h : p.high = 0) : p.dim 0 = p := by
  rw [dim, dimByte_zero, dimByte_zero, dimByte_zero, pack_of_high h]

theorem dim_add (p : Pixel) (m n : Nat) : (p.dim m).dim n = p.dim (m + n) := by
  simp only [dim, pack_red, pack_green, pack_blue, dimByte_add]

theorem dim_inj {p : Pixel} {m n : Nat} : p.dim m = p.dim n ↔ p.SameDim m n := by
  unfold SameDim
  rw [← dimByte_inj, ← dimByte_inj, ← dimByte_inj]
  constructor
  · intro h
    have hr := congrArg red h
    have hg := congrArg green h
    have hb := congrArg blue h
    simp only [dim, pack_red, pack_green, pack_blue] at hr hg hb
    exact ⟨hr, hg, hb⟩
  · rintro ⟨hr, hg, hb⟩
    rw [dim, hr, hg, hb, dim]

end Pixel

theorem darken_eq (c add : BitVec 8) : darken c add = dimByte c add.toNat := by
  apply BitVec.eq_of_toNat_eq
  rw [dimByte_toNat, darken]
  split
  · rename_i h
    exact BitVec.toNat_sub_of_le (BitVec.le_of_lt h)
  · rename_i h
    rw [BitVec.lt_def] at h
    change 0 = _
    omega

theorem shade_eq (dst pix : Pixel) : shade dst pix = dst.dim pix.blue.toNat := by
  rw [shade, Pixel.dim, darken_eq, darken_eq, darken_eq]

/-! ### Runs of strokes -/

inductive Stroke where
  | put (c : Pixel)
  | dim (depth : Nat)

namespace Stroke

def apply (v : Pixel) : Stroke → Pixel
  | put c => c
  | dim depth => v.dim depth

/-- Colours that are put carry no marker. -/
def Unmarked (k : Stroke) : Prop := ∀ c, k = put c → c.high = 0

/-- The last put of a run, with the sum of the depths after it. -/
def lastPut : List Stroke → Option (Pixel × Nat) :=
  List.foldl (fun acc k => match k with
    | put c => some (c, 0)
    | dim depth => acc.map fun a => (a.1, a.2 + depth)) none

/-- The sum of all depths of a run. -/
def total : List Stroke → Nat :=
  List.foldl (fun acc k => match k with
    | put _ => acc
    | dim depth => acc + depth) 0

theorem lastPut_concat (l : List Stroke) (k : Stroke) :
    lastPut (l ++ [k]) = match k with
      | put c => some (c, 0)
      | dim depth => (lastPut l).map fun a => (a.1, a.2 + depth) := by
  rw [lastPut, List.foldl_append]
  rfl

theorem total_concat (l : List Stroke) (k : Stroke) :
    total (l ++ [k]) = match k with
      | put _ => total l
      | dim depth => total l + depth := by
  rw [total, List.foldl_append]
  rfl

theorem run_of_put {l : List Stroke} (hl : ∀ k ∈ l, k.Unmarked) {c : Pixel} {n : Nat}
    (h : lastPut l = some (c, n)) (v : Pixel) : c.high = 0 ∧ l.foldl apply v = c.dim n := by
  induction l using List.reverseRecOn generalizing n with
  | nil => simp [lastPut] at h
  | append_singleton l k ih =>
    rw [lastPut_concat] at h
    rw [List.foldl_append, List.foldl_cons, List.foldl_nil]
    cases k with
    | put d =>
      obtain ⟨rfl, rfl⟩ : d = c ∧ 0 = n := by simpa using h
      have hd : d.high = 0 := hl (put d) (by simp) d rfl
      exact ⟨hd, (Pixel.dim_zero hd).symm⟩
    | dim depth =>
      simp only [Option.map_eq_some_iff] at h
      obtain ⟨⟨d, m⟩, hlast, heq⟩ := h
      obtain ⟨rfl, rfl⟩ : d = c ∧ m + depth = n := by simpa using heq
      obtain ⟨hd, hrun⟩ := ih (fun k hk => hl k (List.mem_append_left _ hk)) hlast
      refine ⟨hd, ?_⟩
      rw [hrun, apply, Pixel.dim_add]

/-- A run without a put dims by its total depth, if there is a stroke at all. -/
theorem run_of_no_put {l : List Stroke} (h : lastPut l = none) (v : Pixel) :
    l.foldl apply v = if l = [] then v else v.dim (total l) := by
  induction l using List.reverseRecOn with
  | nil => rfl
  | append_singleton l k ih =>
    rw [lastPut_concat] at h
    cases k with
    | put d => simp at h
    | dim depth =>
      have hl : lastPut l = none := by simpa using h
      rw [List.foldl_append, List.foldl_cons, List.foldl_nil, ih hl, total_concat]
      cases l with
      | nil => simp [apply, total]
      | cons k l => simp [apply, Pixel.dim_add]

/-- When a second run of the same strokes makes no difference. -/
theorem run_twice_iff {l : List Stroke} (hl : ∀ k ∈ l, k.Unmarked) (v : Pixel) :
    l.foldl apply (l.foldl apply v) = l.foldl apply v ↔
      lastPut l ≠ none ∨ total l = 0 ∨ v.AtMost (total l) := by
  cases h : lastPut l with
  | some a =>
    rw [(run_of_put hl (c := a.1) (n := a.2) h v).2, (run_of_put hl (c := a.1) (n := a.2) h _).2]
    simp
  | none =>
    rw [run_of_no_put h, run_of_no_put h]
    by_cases hnil : l = []
    · subst hnil
      simp [total]
    · rw [if_neg hnil, if_neg hnil, Pixel.dim_add, Pixel.dim_inj, ← Pixel.sameDim_double]
      simp only [ne_eq, not_true_eq_false, false_or, Pixel.SameDim]
      omega

/-- When a run leaves a colour alone that another run `m` has produced; both put no more than one
colour. -/
theorem run_fixed_iff {l m : List Stroke} (hl : ∀ k ∈ l, k.Unmarked) (hm : ∀ k ∈ m, k.Unmarked)
    {v : Pixel} (hput : ∀ c n d n', lastPut l = some (c, n) → lastPut m = some (d, n') → c = d) :
    l.foldl apply (m.foldl apply v) = m.foldl apply v ↔
      match lastPut l, lastPut m with
      | some (c, n), some (_, n') => c.SameDim n n'
      | some (c, n), none => c.dim n = m.foldl apply v
      | none, _ => l = [] ∨
        (m.foldl apply v).high = 0 ∧ (total l = 0 ∨ (m.foldl apply v).AtMost 0) := by
  cases h : lastPut l with
  | some a =>
    obtain ⟨c, n⟩ := a
    rw [(run_of_put hl h _).2]
    cases hn' : lastPut m with
    | some a' =>
      obtain ⟨d, n'⟩ := a'
      obtain rfl := hput c n d n' h hn'
      rw [(run_of_put hm hn' v).2, Pixel.dim_inj]
    | none => rfl
  | none =>
    dsimp only
    rw [run_of_no_put h]
    by_cases hnil : l = []
    · simp [hnil]
    · rw [if_neg hnil]
      refine ⟨fun heq => .inr ?_, fun hor => ?_⟩
      · have hhigh : (m.foldl apply v).high = 0 := heq ▸ Pixel.dim_high _ _
        refine ⟨hhigh, Pixel.sameDim_zero.mp (Pixel.dim_inj.mp ?_)⟩
        rw [heq, Pixel.dim_zero hhigh]
      · obtain ⟨hhigh, hor⟩ := hor.resolve_left hnil
        rw [Pixel.dim_inj.mpr (Pixel.sameDim_zero.mpr hor), Pixel.dim_zero hhigh]

end Stroke

end WinDOS
