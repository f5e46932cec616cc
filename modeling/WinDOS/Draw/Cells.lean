import WinDOS.Draw.Texts

/-!
# Drawings by pixel

In a buffer whose rows are as long as its stride every word is that of one pixel at most, so a
drawing is described by the colours that its pixels get.
-/

set_option autoImplicit false

namespace WinDOS

open Loop Drawing

/-- The words of the visible pixels, each with the colours that `P` allows there. -/
def Cells (fw fh : Int) (P : Int → Int → Pixel → Prop) (a : Int) (v : Pixel) : Prop :=
  ∃ px py, Visible fw fh px py ∧ P px py v ∧ a = py * fw + px

section Cells

variable {fw fh px py : Int} {P Q : Int → Int → Pixel → Prop} {f g : Buffer → Buffer}

theorem pixel_unique {qx qy : Int} (hp : Visible fw fh px py) (hq : Visible fw fh qx qy)
    (heq : py * fw + px = qy * fw + qx) : px = qx ∧ py = qy :=
  index_inj (Int.le_refl fw) hp.1 hq.1 heq

theorem cells_at (h : Visible fw fh px py) (v : Pixel) :
    Cells fw fh P (py * fw + px) v ↔ P px py v := by
  refine ⟨?_, fun hp => ⟨px, py, h, hp, rfl⟩⟩
  rintro ⟨qx, qy, hq, hp, heq⟩
  obtain ⟨rfl, rfl⟩ := pixel_unique h hq heq
  exact hp

theorem cells_congr (hiff : ∀ px py v, Visible fw fh px py → (P px py v ↔ Q px py v)) (a : Int)
    (v : Pixel) : Cells fw fh P a v ↔ Cells fw fh Q a v := by
  constructor
  · rintro ⟨px, py, h, hp, rfl⟩
    exact ⟨px, py, h, (hiff px py v h).mp hp, rfl⟩
  · rintro ⟨px, py, h, hp, rfl⟩
    exact ⟨px, py, h, (hiff px py v h).mpr hp, rfl⟩

theorem drawn_at (hf : Draws (Cells fw fh P) f) (h : Visible fw fh px py) {v : Pixel}
    (hp : P px py v) (b : Buffer) : f b (py * fw + px) = v :=
  hf.written b _ v ((cells_at h v).mpr hp)

theorem kept_at (hf : Draws (Cells fw fh P) f) (h : Visible fw fh px py)
    (hno : ∀ v, ¬ P px py v) (b : Buffer) : f b (py * fw + px) = b (py * fw + px) :=
  hf.kept b _ fun v hv => hno v ((cells_at h v).mp hv)

/-- One drawing over another. -/
theorem cells_comp (hf : Draws (Cells fw fh P) f) (hg : Draws (Cells fw fh Q) g) :
    Draws (Cells fw fh fun px py v => P px py v ∨ (∀ w, ¬ P px py w) ∧ Q px py v)
      (fun b => f (g b)) := by
  refine (hf.comp hg).congr fun a v => ?_
  constructor
  · rintro (⟨px, py, h, hp, rfl⟩ | ⟨hno, px, py, h, hq, rfl⟩)
    · exact ⟨px, py, h, .inl hp, rfl⟩
    · exact ⟨px, py, h, .inr ⟨fun w hw => hno w ((cells_at h w).mpr hw), hq⟩, rfl⟩
  · rintro ⟨px, py, h, hp | ⟨hno, hq⟩, rfl⟩
    · exact .inl ⟨px, py, h, hp, rfl⟩
    · exact .inr ⟨fun w hw => hno w ((cells_at h w).mp hw), px, py, h, hq, rfl⟩

theorem fillRectC_cells (t : Target fw fw fh) (x y w h : Int) (color : Pixel) :
    Draws (Cells fw fh fun px py v => v = color ∧ (x ≤ px ∧ px < x + w) ∧ y ≤ py ∧ py < y + h)
      (fillRectC fw fw fh x y w h color) := by
  refine (fillRectC_draws t x y w h color).congr fun a v => ?_
  constructor
  · rintro ⟨rfl, px, py, ⟨h1, h2, h3, h4, h5, h6, h7, h8⟩, rfl⟩
    exact ⟨px, py, ⟨⟨h1, h2⟩, h3, h4⟩, ⟨rfl, ⟨h5, h6⟩, h7, h8⟩, rfl⟩
  · rintro ⟨px, py, ⟨⟨h1, h2⟩, h3, h4⟩, ⟨rfl, ⟨h5, h6⟩, h7, h8⟩, rfl⟩
    exact ⟨rfl, px, py, ⟨h1, h2, h3, h4, h5, h6, h7, h8⟩, rfl⟩

theorem putStrCs_cells (t : Target fw fw fh) (font : Font) (x y : Int) (text : Text) (color : Pixel)
    {s : Int} (hs : 1 ≤ s) : Draws (Cells fw fh fun px py v =>
      v = color ∧ TextPixel font x y s text px py) (putStrCs font fw fw fh x y text color s) := by
  refine (putStrCs_draws hs text x).congr fun a v => ?_
  constructor
  · rintro ⟨rfl, px, py, h, hp, rfl⟩
    refine ⟨px, py, h, ⟨rfl, hp⟩, ?_⟩
    rw [pixelIndex, t.row h.2.1 h.2.2]
  · rintro ⟨px, py, h, ⟨rfl, hp⟩, rfl⟩
    refine ⟨rfl, px, py, h, hp, ?_⟩
    rw [pixelIndex, t.row h.2.1 h.2.2]

theorem putStrC_cells (t : Target fw fw fh) (font : Font) (x y : Int) (text : Text)
    (color : Pixel) : Draws (Cells fw fh fun px py v =>
      v = color ∧ TextPixel font x y 1 text px py) (putStrC font fw fw fh x y text color) := by
  have hone := putStrCs_cells t font x y text color (Int.le_refl 1)
  rwa [show putStrCs font fw fw fh x y text color 1 = putStrC font fw fw fh x y text color from
    funext fun fb => putStrCs_one text x fb] at hone

end Cells

end WinDOS
