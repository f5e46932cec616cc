import Mathlib.Data.List.Induction
import Mathlib.Data.List.Nodup
import WinDOS.Lib.Loop

/-!
# Stacks of layers

A stack of layers is a list, bottom first. `topmost p l` is the highest layer with the
property `p`, say "covers this point". `seg f a b` reads the entries `a..b-1` of an
integer-indexed table as such a list, so that a loop over heights is a fold over layers.
-/

set_option autoImplicit false

namespace Layers

universe u v
variable {α : Type u} {β : Type v}

def topmost (p : α → Bool) (l : List α) : Option α := (l.filter p).getLast?

@[simp] theorem topmost_nil (p : α → Bool) : topmost p [] = none := rfl

theorem topmost_append (p : α → Bool) (l m : List α) :
    topmost p (l ++ m) = (topmost p m).or (topmost p l) := by
  simp [topmost, List.filter_append, List.getLast?_append]

theorem topmost_cons (p : α → Bool) (a : α) (l : List α) :
    topmost p (a :: l) = (topmost p l).or (if p a then some a else none) := by
  rw [← List.singleton_append, topmost_append]
  by_cases h : p a <;> simp [topmost, h]

theorem topmost_eq_none_iff {p : α → Bool} {l : List α} :
    topmost p l = none ↔ ∀ a ∈ l, p a = false := by
  simp [topmost]

theorem topmost_congr {p q : α → Bool} {l : List α} (h : ∀ a ∈ l, p a = q a) :
    topmost p l = topmost q l := by
  unfold topmost
  rw [List.filter_congr h]

theorem topmost_insert {p : α → Bool} {a : α} (ha : p a = false) (l m : List α) :
    topmost p (l ++ a :: m) = topmost p (l ++ m) := by
  simp [topmost, List.filter_append, ha]

theorem topmost_cut {p : α → Bool} {a : α} (ha : p a = true) (l m : List α) :
    topmost p (l ++ a :: m) = some ((topmost p m).getD a) := by
  rw [topmost_append, topmost_cons, if_pos ha]
  cases topmost p m <;> rfl

theorem topmost_above {p : α → Bool} {a b : α} {l m : List α} (ha : p a = true)
    (h : topmost p (l ++ a :: m) = some b) (hb : b ≠ a) : topmost p m = some b := by
  rw [topmost_cut ha] at h
  cases hm : topmost p m with
  | some c => simpa [hm] using h
  | none => exact absurd (by simpa [hm] using h.symm) hb

theorem topmost_append_of_some {p : α → Bool} {a : α} {m : List α} (h : topmost p m = some a)
    (l : List α) : topmost p (l ++ m) = some a := by
  rw [topmost_append, h, Option.some_or]

theorem topmost_eq_some_iff {p : α → Bool} {l : List α} {a : α} :
    topmost p l = some a ↔
      ∃ below above, l = below ++ a :: above ∧ p a = true ∧ ∀ b ∈ above, p b = false := by
  constructor
  · intro h
    induction l with
    | nil => simp at h
    | cons b l ih =>
      rw [topmost_cons] at h
      cases hl : topmost p l with
      | some c =>
        rw [hl] at h
        obtain rfl : c = a := by simpa using h
        obtain ⟨below, above, rfl, hp, habove⟩ := ih hl
        exact ⟨b :: below, above, rfl, hp, habove⟩
      | none =>
        rw [hl] at h
        by_cases hb : p b = true
        · obtain rfl : b = a := by simpa [hb] using h
          exact ⟨[], l, rfl, hb, topmost_eq_none_iff.mp hl⟩
        · simp [hb] at h
  · rintro ⟨below, above, rfl, hp, habove⟩
    rw [topmost_append, topmost_cons, topmost_eq_none_iff.mpr habove, if_pos hp]
    rfl

theorem mem_of_topmost {p : α → Bool} {l : List α} {a : α} (h : topmost p l = some a) :
    a ∈ l ∧ p a = true := by
  obtain ⟨below, above, rfl, hp, _⟩ := topmost_eq_some_iff.mp h
  exact ⟨by simp, hp⟩

theorem topmost_upper_of_not_mem {p : α → Bool} {l m : List α} {a : α}
    (h : topmost p (l ++ m) = some a) (ha : a ∉ l) : topmost p m = some a := by
  rw [topmost_append] at h
  cases hm : topmost p m with
  | some b => rwa [hm, Option.some_or] at h
  | none =>
    rw [hm, Option.none_or] at h
    exact absurd (mem_of_topmost h).1 ha

theorem topmost_eq_find? (p : α → Bool) (l : List α) : topmost p l = l.reverse.find? p := by
  induction l with
  | nil => rfl
  | cons a l ih =>
    rw [topmost_cons, ih, List.reverse_cons, List.find?_append, List.find?_singleton]

/-- Two properties, one stronger, name the same topmost layer unless a layer has only the
weaker one and no layer above it has the stronger. -/
theorem topmost_eq_iff_of_imp {p q : α → Bool} {l : List α} (h : ∀ a ∈ l, q a = true → p a = true) :
    topmost p l = topmost q l ↔ ∀ below a above, l = below ++ a :: above → p a = true →
      (∀ b ∈ above, q b = false) → q a = true := by
  constructor
  · rintro heq below a above rfl hp hq
    rw [topmost_cut hp] at heq
    obtain ⟨hmem, hc⟩ := mem_of_topmost heq.symm
    cases hm : topmost p above with
    | none => rwa [hm] at hc
    | some c =>
      rw [hm] at hc
      exact absurd hc (by simp [hq c (mem_of_topmost hm).1])
  · intro hall
    cases hp : topmost p l with
    | none =>
      refine (topmost_eq_none_iff.mpr fun a ha => ?_).symm
      have hpa := topmost_eq_none_iff.mp hp a ha
      by_contra hqa
      rw [h a ha (by simpa using hqa)] at hpa
      contradiction
    | some c =>
      obtain ⟨below, above, rfl, hpc, habove⟩ := topmost_eq_some_iff.mp hp
      have hqabove : ∀ b ∈ above, q b = false := by
        intro b hb
        by_contra hqb
        have hpb := h b (by simp [hb]) (by simpa using hqb)
        rw [habove b hb] at hpb
        contradiction
      exact (topmost_eq_some_iff.mpr ⟨below, above, rfl, hall below c above rfl hpc hqabove,
        hqabove⟩).symm

theorem foldl_topmost (p : α → Bool) (g : α → β) (l : List α) (v : β) :
    l.foldl (fun v a => if p a then g a else v) v = ((topmost p l).map g).getD v := by
  induction l using List.reverseRecOn with
  | nil => rfl
  | append_singleton l a ih =>
    rw [List.foldl_append, List.foldl_cons, List.foldl_nil, ih, topmost_append, topmost_cons]
    by_cases h : p a <;> simp [h]

/-- Recomputing the topmost layer among the upper layers `m` only is enough when the old
answer is right for the layers `l` below them. -/
theorem topmost_upper {p : α → Bool} {l m : List α} {old : Option α}
    (h : (∀ a ∈ m, p a = false) → old = topmost p l) :
    (topmost p m).or old = topmost p (l ++ m) := by
  rw [topmost_append]
  cases hm : topmost p m with
  | some a => rfl
  | none => simp [h (topmost_eq_none_iff.mp hm)]

/-- Entries `a..b-1` of a table. -/
def seg (f : Int → α) (a b : Int) : List α :=
  (List.range (b - a).toNat).map fun k : Nat => f (a + k)

theorem seg_of_le (f : Int → α) {a b : Int} (h : b ≤ a) : seg f a b = [] := by
  simp [seg, Int.toNat_of_nonpos (by omega : b - a ≤ 0)]

@[simp] theorem seg_length (f : Int → α) (a b : Int) : (seg f a b).length = (b - a).toNat := by
  simp [seg]

theorem seg_length_int (f : Int → α) {a b : Int} (h : a ≤ b) :
    ((seg f a b).length : Int) = b - a := by
  rw [seg_length]
  omega

theorem mem_seg {f : Int → α} {a b : Int} {x : α} :
    x ∈ seg f a b ↔ ∃ k, a ≤ k ∧ k < b ∧ f k = x := by
  simp only [seg, List.mem_map, List.mem_range]
  constructor
  · rintro ⟨k, hk, rfl⟩
    exact ⟨a + k, by omega, by omega, rfl⟩
  · rintro ⟨k, hak, hkb, rfl⟩
    exact ⟨(k - a).toNat, by omega, congrArg f (by omega)⟩

theorem seg_append (f : Int → α) {a b c : Int} (hab : a ≤ b) (hbc : b ≤ c) :
    seg f a c = seg f a b ++ seg f b c := by
  apply List.ext_getElem
  · simp only [seg_length, List.length_append]
    omega
  · intro i h1 h2
    simp only [seg, List.getElem_append, List.getElem_map, List.getElem_range, List.length_map,
      List.length_range]
    split
    · rfl
    · exact congrArg f (by omega)

theorem seg_cons (f : Int → α) {a b : Int} (h : a < b) : seg f a b = f a :: seg f (a + 1) b := by
  have hlen : (a + 1 - a).toNat = 1 := by omega
  have hone : seg f a (a + 1) = [f a] := by
    unfold seg
    rw [hlen]
    change [f (a + (0 : Nat))] = [f a]
    rw [Int.natCast_zero, Int.add_zero]
  rw [seg_append f (by omega : a ≤ a + 1) (by omega), hone, List.singleton_append]

theorem seg_congr {f g : Int → α} {a b : Int} (h : ∀ k, a ≤ k → k < b → f k = g k) :
    seg f a b = seg g a b := by
  unfold seg
  apply List.map_congr_left
  intro k hk
  have := List.mem_range.mp hk
  exact h _ (by omega) (by omega)

theorem seg_shift {f g : Int → α} {a b d : Int} (h : ∀ k, a ≤ k → k < b → g (k + d) = f k) :
    seg g (a + d) (b + d) = seg f a b := by
  have hn : (b + d - (a + d)).toNat = (b - a).toNat := by omega
  unfold seg
  rw [hn]
  apply List.map_congr_left
  intro k hk
  have := List.mem_range.mp hk
  rw [← h (a + k) (by omega) (by omega)]
  exact congrArg g (by omega)

theorem seg_nodup {f : Int → α} {a b : Int}
    (h : ∀ j k, a ≤ j → j < b → a ≤ k → k < b → f j = f k → j = k) : (seg f a b).Nodup := by
  unfold seg
  refine List.Nodup.map_on ?_ List.nodup_range
  intro j hj k hk hjk
  have := List.mem_range.mp hj
  have := List.mem_range.mp hk
  have := h _ _ (by omega) (by omega) (by omega) (by omega) hjk
  omega

theorem reverse_seg (f : Int → α) (a b : Int) :
    (seg f a b).reverse = (List.range (b - a).toNat).map fun k : Nat => f (b - 1 - k) := by
  apply List.ext_getElem
  · simp [seg]
  · intro i h1 h2
    rw [List.length_reverse, seg_length] at h1
    simp only [seg, List.getElem_reverse, List.getElem_map, List.getElem_range, List.length_map,
      List.length_range]
    exact congrArg f (by omega)

/-- A loop over a table is a fold over its entries. -/
theorem forUp_eq_foldl_seg (f : Int → α) (body : α → β → β) (a b : Int) (s : β) :
    Loop.forUp a b (fun i s => body (f i) s) s = (seg f a b).foldl (fun s x => body x s) s := by
  unfold Loop.forUp seg
  rw [List.foldl_map]

theorem drop_seg (f : Int → α) {a b : Int} {n : Nat} (h : a + n ≤ b) :
    (seg f a b).drop n = seg f (a + n) b := by
  rw [seg_append f (by omega : a ≤ a + n) h, List.drop_left' (by rw [seg_length]; omega)]

theorem take_seg (f : Int → α) {a b : Int} {n : Nat} (h : a + n ≤ b) :
    (seg f a b).take n = seg f a (a + n) := by
  rw [seg_append f (by omega : a ≤ a + n) h, List.take_left' (by rw [seg_length]; omega)]

end Layers
