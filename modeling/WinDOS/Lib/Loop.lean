import Mathlib.Algebra.Group.Int.Defs
import Mathlib.Algebra.Group.Nat.Defs
import Mathlib.Logic.Function.Basic

/-!
# Counted loops over integers

`forUp lo hi body` is `for (i = lo; i < hi; i++)` and `forDown hi lo body` is
`for (i = hi; i > lo; i--)`, both on an arbitrary state. Besides the invariant rules
there is a projection rule (a loop seen through one component of its state) and a rule
for loops in which a single iteration matters.

A run of `Guarded` loops does what the plain run does as long as a guard allows every access on
the way, and has no result from the first forbidden access on.
-/

set_option autoImplicit false

namespace Loop

universe u v
variable {σ : Type u} {τ : Type v}

def forUp (lo hi : Int) (body : Int → σ → σ) (s : σ) : σ :=
  (List.range (hi - lo).toNat).foldl (fun s (k : Nat) => body (lo + k) s) s

def forDown (hi lo : Int) (body : Int → σ → σ) (s : σ) : σ :=
  (List.range (hi - lo).toNat).foldl (fun s (k : Nat) => body (hi - k) s) s

theorem forUp_of_le {lo hi : Int} (h : hi ≤ lo) (body : Int → σ → σ) (s : σ) :
    forUp lo hi body s = s := by
  simp [forUp, Int.toNat_of_nonpos (by omega : hi - lo ≤ 0)]

theorem forUp_succ {lo hi : Int} (h : lo ≤ hi) (body : Int → σ → σ) (s : σ) :
    forUp lo (hi + 1) body s = body hi (forUp lo hi body s) := by
  have hn : (hi + 1 - lo).toNat = (hi - lo).toNat + 1 := by omega
  have hlast : lo + ((hi - lo).toNat : Int) = hi := by omega
  simp only [forUp, hn, List.range_succ, List.foldl_append, List.foldl_cons, List.foldl_nil,
    hlast]

theorem forDown_pred {lo hi : Int} (h : lo ≤ hi) (body : Int → σ → σ) (s : σ) :
    forDown hi (lo - 1) body s = body lo (forDown hi lo body s) := by
  have hn : (hi - (lo - 1)).toNat = (hi - lo).toNat + 1 := by omega
  have hlast : hi - ((hi - lo).toNat : Int) = lo := by omega
  simp only [forDown, hn, List.range_succ, List.foldl_append, List.foldl_cons, List.foldl_nil,
    hlast]

/-- The invariant rule: `P i` holds when the loop variable is about to take the value `i`. -/
theorem forUp_inv (P : Int → σ → Prop) {lo hi : Int} (hle : lo ≤ hi) {body : Int → σ → σ} {s : σ}
    (h0 : P lo s) (hstep : ∀ i t, lo ≤ i → i < hi → P i t → P (i + 1) (body i t)) :
    P hi (forUp lo hi body s) := by
  obtain ⟨n, rfl⟩ : ∃ n : Nat, hi = lo + n := ⟨(hi - lo).toNat, by omega⟩
  induction n with
  | zero => simpa [forUp] using h0
  | succ n ih =>
    have hi' : lo + ((n + 1 : Nat) : Int) = lo + n + 1 := by omega
    rw [hi', forUp_succ (by omega)]
    refine hstep _ _ (by omega) (by omega) (ih (by omega) ?_)
    intro i t h1 h2
    exact hstep i t h1 (by omega)

theorem forDown_inv (P : Int → σ → Prop) {hi lo : Int} (hle : lo ≤ hi) {body : Int → σ → σ} {s : σ}
    (h0 : P hi s) (hstep : ∀ i t, lo < i → i ≤ hi → P i t → P (i - 1) (body i t)) :
    P lo (forDown hi lo body s) := by
  obtain ⟨n, rfl⟩ : ∃ n : Nat, lo = hi - n := ⟨(hi - lo).toNat, by omega⟩
  induction n with
  | zero => simpa [forDown] using h0
  | succ n ih =>
    have hlo : hi - ((n + 1 : Nat) : Int) = hi - n - 1 := by omega
    rw [hlo, forDown_pred (by omega)]
    refine hstep _ _ (by omega) (by omega) (ih (by omega) ?_)
    intro i t h1 h2
    exact hstep i t (by omega) h2

theorem forUp_keeps {P : σ → Prop} (lo hi : Int) {body : Int → σ → σ} {s : σ} (h0 : P s)
    (hstep : ∀ i t, P t → P (body i t)) : P (forUp lo hi body s) :=
  List.foldlRecOn _ _ h0 fun t ht k _ => hstep (lo + k) t ht

theorem forDown_keeps {P : σ → Prop} (hi lo : Int) {body : Int → σ → σ} {s : σ} (h0 : P s)
    (hstep : ∀ i t, P t → P (body i t)) : P (forDown hi lo body s) :=
  List.foldlRecOn _ _ h0 fun t ht k _ => hstep (hi - k) t ht

theorem forUp_map (φ : σ → τ) {lo hi : Int} {body : Int → σ → σ} {g : Int → τ → τ}
    (h : ∀ i s, lo ≤ i → i < hi → φ (body i s) = g i (φ s)) (s : σ) :
    φ (forUp lo hi body s) = forUp lo hi g (φ s) := by
  unfold forUp
  suffices H : ∀ (l : List Nat) (s : σ), (∀ k ∈ l, (k : Int) < hi - lo) →
      φ (l.foldl (fun s (k : Nat) => body (lo + k) s) s) = l.foldl (fun t (k : Nat) => g (lo + k) t) (φ s) by
    refine H _ s fun k hk => ?_
    have := List.mem_range.mp hk
    omega
  intro l
  induction l with
  | nil => intro s _; rfl
  | cons k l ih =>
    intro s hl
    have hk := hl k List.mem_cons_self
    rw [List.foldl_cons, List.foldl_cons, ih _ fun j hj => hl j (List.mem_cons_of_mem k hj),
      h _ _ (by omega) (by omega)]

theorem forUp_skip {lo hi : Int} {g : Int → τ → τ}
    (h : ∀ i v, lo ≤ i → i < hi → g i v = v) (v : τ) : forUp lo hi g v = v := by
  by_cases hle : lo ≤ hi
  · exact forUp_inv (fun _ t => t = v) hle rfl fun i t h1 h2 ht => by rw [h i t h1 h2, ht]
  · exact forUp_of_le (by omega) g v

theorem forUp_single {lo hi : Int} {g : Int → τ → τ} (i₀ : Int)
    (h : ∀ i v, lo ≤ i → i < hi → i ≠ i₀ → g i v = v) (v : τ) :
    forUp lo hi g v = if lo ≤ i₀ ∧ i₀ < hi then g i₀ v else v := by
  by_cases hin : lo ≤ i₀ ∧ i₀ < hi
  · rw [if_pos hin]
    refine (forUp_inv (fun i t => (i ≤ i₀ → t = v) ∧ (i₀ < i → t = g i₀ v)) (by omega)
      ⟨fun _ => rfl, by omega⟩ ?_).2 hin.2
    rintro i t h1 h2 ⟨hbefore, hafter⟩
    by_cases hi : i = i₀
    · subst hi
      exact ⟨by omega, fun _ => by rw [hbefore (by omega)]⟩
    · rw [h i t h1 h2 hi]
      exact ⟨fun _ => hbefore (by omega), fun _ => hafter (by omega)⟩
  · rw [if_neg hin]
    refine forUp_skip (fun i v h1 h2 => h i v h1 h2 ?_) v
    omega

end Loop

namespace Guarded

variable {A σ : Type}

/-- `s`, once the accesses `l` have been made. -/
def after (ok : A → Bool) (l : List A) (s : σ) : Option σ := if l.all ok then some s else none

theorem after_eq {ok : A → Bool} {l : List A} (h : ∀ a ∈ l, ok a = true) (s : σ) :
    after ok l s = some s := if_pos (List.all_eq_true.mpr h)

theorem after_one {ok : A → Bool} {a : A} (h : ok a = true) (s : σ) : after ok [a] s = some s :=
  after_eq (fun _ hb => List.mem_singleton.mp hb ▸ h) s

def forUp (lo hi : Int) (body : Int → σ → Option σ) (s : σ) : Option σ :=
  Loop.forUp lo hi (fun i t => t.bind (body i)) (some s)

def forDown (hi lo : Int) (body : Int → σ → Option σ) (s : σ) : Option σ :=
  Loop.forDown hi lo (fun i t => t.bind (body i)) (some s)

/-- The loop ends if no iteration of the plain loop makes a forbidden access. -/
theorem forUp_eq {lo hi : Int} {body : Int → σ → Option σ} {plain : Int → σ → σ} {s : σ}
    (h : ∀ i, lo ≤ i → i < hi →
      body i (Loop.forUp lo i plain s) = some (plain i (Loop.forUp lo i plain s))) :
    forUp lo hi body s = some (Loop.forUp lo hi plain s) := by
  by_cases hle : lo ≤ hi
  · refine Loop.forUp_inv (fun i t => t = some (Loop.forUp lo i plain s)) hle ?_ ?_
    · rw [Loop.forUp_of_le (Int.le_refl lo)]
    · rintro i t h1 h2 rfl
      rw [Loop.forUp_succ h1]
      exact h i h1 h2
  · rw [forUp, Loop.forUp_of_le (by omega), Loop.forUp_of_le (by omega)]

theorem forDown_eq {hi lo : Int} {body : Int → σ → Option σ} {plain : Int → σ → σ} {s : σ}
    (h : ∀ i, lo < i → i ≤ hi →
      body i (Loop.forDown hi i plain s) = some (plain i (Loop.forDown hi i plain s))) :
    forDown hi lo body s = some (Loop.forDown hi lo plain s) := by
  by_cases hle : lo ≤ hi
  · refine Loop.forDown_inv (fun i t => t = some (Loop.forDown hi i plain s)) hle ?_ ?_
    · simp [Loop.forDown]
    · rintro i t h1 h2 rfl
      rw [Loop.forDown_pred h2]
      exact h i h1 h2
  · have hempty : (hi - lo).toNat = 0 := by omega
    simp [forDown, Loop.forDown, hempty]

/-- Every iteration of the loop ends. -/
theorem forUp_some {lo hi : Int} {body : Int → σ → Option σ}
    (h : ∀ i s, lo ≤ i → i < hi → ∃ t, body i s = some t) (s : σ) :
    ∃ t, forUp lo hi body s = some t := by
  by_cases hle : lo ≤ hi
  · refine Loop.forUp_inv (fun _ t => ∃ u, t = some u) hle ⟨s, rfl⟩ ?_
    rintro i t h1 h2 ⟨u, rfl⟩
    exact h i u h1 h2
  · exact ⟨s, by rw [forUp, Loop.forUp_of_le (by omega)]⟩

theorem forDown_some {hi lo : Int} {body : Int → σ → Option σ}
    (h : ∀ i s, lo < i → i ≤ hi → ∃ t, body i s = some t) (s : σ) :
    ∃ t, forDown hi lo body s = some t := by
  by_cases hle : lo ≤ hi
  · refine Loop.forDown_inv (fun _ t => ∃ u, t = some u) hle ⟨s, rfl⟩ ?_
    rintro i t h1 h2 ⟨u, rfl⟩
    exact h i u h1 h2
  · have hempty : (hi - lo).toNat = 0 := by omega
    exact ⟨s, by simp [forDown, Loop.forDown, hempty]⟩

/-- A fold over a list ends if every round does, whatever the rounds before it have kept. -/
theorem foldlM_eq {β : Type} {round : σ → β → Option σ} {plain : σ → β → σ} (P : σ → Prop)
    {l : List β} (h : ∀ s b, b ∈ l → P s → round s b = some (plain s b) ∧ P (plain s b)) {s : σ}
    (hs : P s) : l.foldlM round s = some (l.foldl plain s) := by
  induction l generalizing s with
  | nil => rfl
  | cons b l ih =>
    obtain ⟨hround, hkeep⟩ := h s b List.mem_cons_self hs
    rw [List.foldlM_cons, hround, List.foldl_cons]
    exact ih (fun s c hc => h s c (List.mem_cons_of_mem b hc)) hkeep

end Guarded
