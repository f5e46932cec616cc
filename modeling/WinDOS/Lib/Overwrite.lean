import WinDOS.Lib.Loop

/-!
# Transformations that overwrite

A transformation of an array overwrites when it replaces fixed cells by fixed values and
leaves the others alone. Overwriting is closed under composition and loops, forgets what
the replaced cells held, and doing it twice is doing it once.
-/

set_option autoImplicit false

namespace Overwrite

universe u v
variable {ι : Type u} {β : Type v}

/-- `f` replaces some cells by values with the property `Q`. -/
def Overwrites (Q : β → Prop) (f : (ι → β) → ι → β) : Prop :=
  ∃ P : ι → Option β, (∀ i v, P i = some v → Q v) ∧ ∀ b i, f b i = (P i).getD (b i)

namespace Overwrites

variable {Q : β → Prop} {f g : (ι → β) → ι → β}

theorem id : Overwrites Q (fun b : ι → β => b) :=
  ⟨fun _ => none, fun _ _ h => by simp at h, fun _ _ => rfl⟩

theorem comp (hf : Overwrites Q f) (hg : Overwrites Q g) : Overwrites Q (fun b => f (g b)) := by
  obtain ⟨P, hP, hf⟩ := hf
  obtain ⟨R, hR, hg⟩ := hg
  refine ⟨fun i => (P i).or (R i), ?_, ?_⟩
  · intro i v h
    cases hi : P i with
    | some w =>
      simp only [hi, Option.some_or] at h
      exact hP i v (hi.trans h)
    | none =>
      simp only [hi, Option.none_or] at h
      exact hR i v h
  · intro b i
    simp only [hf, hg]
    cases P i <;> rfl

theorem update [DecidableEq ι] (i : ι) {v : β} (hv : Q v) :
    Overwrites Q (fun b => Function.update b i v) := by
  refine ⟨fun j => if j = i then some v else none, ?_, ?_⟩
  · intro j w h
    dsimp only at h
    split at h
    · obtain rfl : v = w := by simpa using h
      exact hv
    · simp at h
  · intro b j
    by_cases hj : j = i
    · subst hj
      simp
    · simp [hj]

theorem ite (c : Prop) [Decidable c] (hf : c → Overwrites Q f) :
    Overwrites Q (fun b => if c then f b else b) := by
  by_cases hc : c
  · simpa only [if_pos hc] using hf hc
  · simpa only [if_neg hc] using id

theorem forUp {lo hi : Int} {body : Int → (ι → β) → ι → β}
    (h : ∀ i, lo ≤ i → i < hi → Overwrites Q (body i)) : Overwrites Q (Loop.forUp lo hi body) := by
  by_cases hle : lo ≤ hi
  · obtain ⟨n, rfl⟩ : ∃ n : Nat, hi = lo + n := ⟨(hi - lo).toNat, by omega⟩
    induction n with
    | zero =>
      have hloop : Loop.forUp lo (lo + ((0 : Nat) : Int)) body = fun b => b := by
        funext b
        exact Loop.forUp_of_le (by omega) body b
      rw [hloop]
      exact id
    | succ n ih =>
      have hn : lo + ((n + 1 : Nat) : Int) = lo + n + 1 := by omega
      have hloop : Loop.forUp lo (lo + ((n + 1 : Nat) : Int)) body =
          fun b => body (lo + n) (Loop.forUp lo (lo + n) body b) := by
        funext b
        rw [hn, Loop.forUp_succ (by omega)]
      rw [hloop]
      exact (h _ (by omega) (by omega)).comp
        (ih (fun i h1 h2 => h i h1 (by omega)) (by omega))
  · have hloop : Loop.forUp lo hi body = fun b => b := by
      funext b
      exact Loop.forUp_of_le (by omega) body b
    rw [hloop]
    exact id

theorem foldl {γ : Type*} {body : (ι → β) → γ → ι → β} (l : List γ)
    (h : ∀ x ∈ l, Overwrites Q (fun b => body b x)) : Overwrites Q (fun b => l.foldl body b) := by
  induction l with
  | nil => exact id
  | cons x l ih =>
    exact comp (f := fun b => l.foldl body b) (ih fun y hy => h y (List.mem_cons_of_mem x hy))
      (h x List.mem_cons_self)

theorem of_forall (hf : Overwrites Q f) {b : ι → β} {i : ι} (hb : Q (b i)) : Q (f b i) := by
  obtain ⟨P, hP, hf⟩ := hf
  rw [hf]
  cases hi : P i with
  | some v => exact hP i v hi
  | none => exact hb

theorem congr (hf : Overwrites Q f) {b c : ι → β} {i : ι} (h : b i = c i) : f b i = f c i := by
  obtain ⟨P, -, hf⟩ := hf
  rw [hf, hf, h]

theorem idempotent (hf : Overwrites Q f) (b : ι → β) : f (f b) = f b := by
  obtain ⟨P, -, hf⟩ := hf
  funext i
  rw [hf, hf]
  cases P i <;> rfl

end Overwrites

end Overwrite
