import WinDOS.Lib.Loop
import Mathlib.Data.List.Induction

/-!
# What a drawing writes

A drawing of an array is described by the relation of its cells to the values they get. The
description of a loop is the union over its iterations where these agree; a drawing after
another hides what the first wrote below it.
-/

set_option autoImplicit false

namespace Drawing

open Loop

universe u v
variable {ι : Type u} {β : Type v}

/-- `f` writes `v` to `i` for `W i v`, and nothing else. -/
structure Draws (W : ι → β → Prop) (f : (ι → β) → ι → β) : Prop where
  written : ∀ b i v, W i v → f b i = v
  kept : ∀ b i, (∀ v, ¬ W i v) → f b i = b i

namespace Draws

variable {W V : ι → β → Prop} {f g : (ι → β) → ι → β}

theorem congr (h : Draws W f) (hiff : ∀ i v, W i v ↔ V i v) : Draws V f where
  written b i v hv := h.written b i v ((hiff i v).mpr hv)
  kept b i hno := h.kept b i fun v hw => hno v ((hiff i v).mp hw)

theorem nothing : Draws (fun _ _ => False) (fun b : ι → β => b) :=
  ⟨fun _ _ _ h => h.elim, fun _ _ _ => rfl⟩

theorem update [DecidableEq ι] (i : ι) (v : β) :
    Draws (fun j w => j = i ∧ w = v) (fun b => Function.update b i v) where
  written := by
    rintro b j w ⟨rfl, rfl⟩
    exact Function.update_self _ _ _
  kept b j h := Function.update_of_ne (fun heq => h v ⟨heq, rfl⟩) _ _

theorem ite (c : Prop) [Decidable c] (h : c → Draws W f) :
    Draws (fun i v => c ∧ W i v) (fun b => if c then f b else b) := by
  by_cases hc : c
  · rw [show (fun b => if c then f b else b) = f from funext fun b => if_pos hc]
    exact (h hc).congr fun i v => (and_iff_right hc).symm
  · rw [show (fun b => if c then f b else b) = fun b => b from funext fun b => if_neg hc]
    exact nothing.congr fun i v => ⟨False.elim, fun h => hc h.1⟩

theorem of_forall {Q : β → Prop} (h : Draws W f) (hQ : ∀ i v, W i v → Q v) {b : ι → β} {i : ι}
    (hb : Q (b i)) : Q (f b i) := by
  by_cases hno : ∀ v, ¬ W i v
  · rw [h.kept b i hno]
    exact hb
  · obtain ⟨v, hv⟩ := not_forall_not.mp hno
    rw [h.written b i v hv]
    exact hQ i v hv

theorem comp (hf : Draws W f) (hg : Draws V g) :
    Draws (fun i v => W i v ∨ (∀ w, ¬ W i w) ∧ V i v) (fun b => f (g b)) where
  written b i v h := by
    rcases h with h | ⟨hno, h⟩
    · exact hf.written _ i v h
    · rw [hf.kept _ i hno]
      exact hg.written b i v h
  kept b i h := by
    rw [hf.kept _ i fun v hv => h v (.inl hv)]
    exact hg.kept b i fun v hv => h v (.inr ⟨fun w hw => h w (.inl hw), hv⟩)

theorem union (hf : Draws W f) (hg : Draws V g) (agree : ∀ i v w, W i v → V i w → v = w) :
    Draws (fun i v => W i v ∨ V i v) (fun b => f (g b)) := by
  refine (hf.comp hg).congr fun i v => ⟨Or.imp_right And.right, ?_⟩
  rintro (h | h)
  · exact .inl h
  · by_cases hno : ∀ w, ¬ W i w
    · exact .inr ⟨hno, h⟩
    · obtain ⟨w, hw⟩ := not_forall_not.mp hno
      exact .inl (agree i w v hw h ▸ hw)

theorem forUp {lo hi : Int} {body : Int → (ι → β) → ι → β} {W : Int → ι → β → Prop}
    (h : ∀ k, lo ≤ k → k < hi → Draws (W k) (body k))
    (agree : ∀ k l i v w, lo ≤ k → k < hi → lo ≤ l → l < hi → W k i v → W l i w → v = w) :
    Draws (fun i v => ∃ k, lo ≤ k ∧ k < hi ∧ W k i v) (Loop.forUp lo hi body) := by
  by_cases hle : lo ≤ hi
  · obtain ⟨n, rfl⟩ : ∃ n : Nat, hi = lo + n := ⟨(hi - lo).toNat, by omega⟩
    clear hle
    induction n with
    | zero =>
      have hloop : Loop.forUp lo (lo + ((0 : Nat) : Int)) body = fun b => b :=
        funext fun b => forUp_of_le (by omega) body b
      rw [hloop]
      refine nothing.congr fun i v => ⟨False.elim, ?_⟩
      rintro ⟨k, h0, h1, -⟩
      omega
    | succ n ih =>
      have hn : lo + ((n + 1 : Nat) : Int) = lo + n + 1 := by omega
      have hloop : Loop.forUp lo (lo + ((n + 1 : Nat) : Int)) body =
          fun b => body (lo + n) (Loop.forUp lo (lo + n) body b) :=
        funext fun b => by rw [hn, forUp_succ (by omega)]
      rw [hloop]
      refine ((h (lo + n) (by omega) (by omega)).union
        (ih (fun k h0 h1 => h k h0 (by omega)) fun k l i v w h0 h1 h2 h3 =>
          agree k l i v w h0 (by omega) h2 (by omega)) ?_).congr fun i v => ?_
      · rintro i v w hv ⟨k, h0, h1, hw⟩
        exact agree _ _ i v w (by omega) (by omega) h0 (by omega) hv hw
      · constructor
        · rintro (hv | ⟨k, h0, h1, hv⟩)
          · exact ⟨lo + n, by omega, by omega, hv⟩
          · exact ⟨k, h0, by omega, hv⟩
        · rintro ⟨k, h0, h1, hv⟩
          by_cases hk : k = lo + n
          · exact .inl (hk ▸ hv)
          · exact .inr ⟨k, h0, by omega, hv⟩
  · have hloop : Loop.forUp lo hi body = fun b => b :=
      funext fun b => forUp_of_le (by omega) body b
    rw [hloop]
    refine nothing.congr fun i v => ⟨False.elim, ?_⟩
    rintro ⟨k, h0, h1, -⟩
    omega

end Draws

/-! ### Drawing again -/

section Redraw

variable {κ : Type} {C : ι → β → Prop} {P : κ → ι → β → Prop}
  {clear : (ι → β) → ι → β} {paint : κ → (ι → β) → ι → β}

/-- Each picture is painted over an area that was cleared before. -/
def redraws (clear : (ι → β) → ι → β) (paint : κ → (ι → β) → ι → β) (ts : List κ) (b : ι → β) :
    ι → β :=
  ts.foldl (fun b t => paint t (clear b)) b

theorem redraws_concat (ts : List κ) (t : κ) (b : ι → β) :
    redraws clear paint (ts ++ [t]) b = paint t (clear (redraws clear paint ts b)) := by
  rw [redraws, List.foldl_append]
  rfl

/-- Outside the cleared area a picture stays for good. -/
theorem redraws_left (hclear : Draws C clear) (hpaint : ∀ t, Draws (P t) (paint t)) {ts : List κ}
    {i : ι} {v : β} (hout : ∀ w, ¬ C i w) (agree : ∀ t ∈ ts, ∀ w, P t i w → w = v) {t : κ}
    (ht : t ∈ ts) (hv : P t i v) (b : ι → β) : redraws clear paint ts b i = v := by
  induction ts using List.reverseRecOn with
  | nil => exact absurd ht List.not_mem_nil
  | append_singleton ts u ih =>
    rw [redraws_concat]
    by_cases hu : ∃ w, P u i w
    · obtain ⟨w, hw⟩ := hu
      rw [(hpaint u).written _ i w hw]
      exact agree u (List.mem_append_right ts (List.mem_singleton_self u)) w hw
    · have hno : ∀ w, ¬ P u i w := fun w hw => hu ⟨w, hw⟩
      rw [(hpaint u).kept _ i hno, hclear.kept _ i hout]
      rcases List.mem_append.mp ht with hold | hnew
      · exact ih (fun t ht => agree t (List.mem_append_left [u] ht)) hold
      · obtain rfl := List.mem_singleton.mp hnew
        exact absurd hv (hno v)

theorem redraws_kept (hclear : Draws C clear) (hpaint : ∀ t, Draws (P t) (paint t)) {ts : List κ}
    {i : ι} (hout : ∀ w, ¬ C i w) (hno : ∀ t ∈ ts, ∀ w, ¬ P t i w) (b : ι → β) :
    redraws clear paint ts b i = b i := by
  induction ts using List.reverseRecOn with
  | nil => rfl
  | append_singleton ts u ih =>
    rw [redraws_concat,
      (hpaint u).kept _ i (hno u (List.mem_append_right ts (List.mem_singleton_self u))),
      hclear.kept _ i hout]
    exact ih fun t ht => hno t (List.mem_append_left [u] ht)

end Redraw

end Drawing
