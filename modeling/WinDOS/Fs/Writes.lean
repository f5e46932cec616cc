import WinDOS.Fs.Effects

/-!
# The steps of `exfat_write_file`

The searches for the bitmap entry and for a clear bit, and the loop that copies the data: when
it ends with 0 and which sectors it has written by then.
-/

set_option autoImplicit false

namespace WinDOS

open Bytes

namespace Exfat

/-! ### Searches -/

theorem bitmapEntry_congr {rd rd' : Buf} {bpc : Nat} (h : ∀ i < bpc, rd i = rd' i)
    (hdvd : 32 ∣ bpc) (fuel : Nat) {o : Nat} (ho : 32 ∣ o) :
    bitmapEntry rd bpc fuel o = bitmapEntry rd' bpc fuel o := by
  induction fuel generalizing o with
  | zero => rfl
  | succ fuel ih =>
    rw [bitmapEntry, bitmapEntry]
    split
    · rename_i hlt
      have hentry : o + 32 ≤ bpc := by omega
      rw [h o hlt, le_congr fun i _ h1 => h i (by omega), ih (by omega)]
    · rfl

/-- The search ends at the first clear bit, or with 0 if there is none. -/
theorem searchBitmap_cases (bm : Buf) (n cc : Nat) :
    (searchBitmap bm n cc = 0 ∧ ∀ c, cc ≤ c → c < cc + n → bit bm c = true) ∨
    ∃ c, searchBitmap bm n cc = c ∧ cc ≤ c ∧ c < cc + n ∧ bit bm c = false ∧
      ∀ b, cc ≤ b → b < c → bit bm b = true := by
  induction n generalizing cc with
  | zero => exact .inl ⟨rfl, fun c h0 h1 => absurd h1 (by omega)⟩
  | succ n ih =>
    rw [searchBitmap]
    by_cases hbit : bm (cc / 8) &&& (1#8 <<< (cc % 8)) = 0
    · rw [if_pos hbit]
      exact .inr ⟨cc, rfl, by omega, by omega, (and_mask_eq_zero_iff bm cc).mp hbit,
        fun b h0 h1 => absurd h1 (by omega)⟩
    · rw [if_neg hbit]
      have hset : bit bm cc = true :=
        Bool.not_eq_false _ ▸ fun hc => hbit ((and_mask_eq_zero_iff bm cc).mpr hc)
      have hlower : ∀ b, cc ≤ b → ¬ cc + 1 ≤ b → bit bm b = true := fun b h0 h1 => by
        rwa [show b = cc by omega]
      rcases ih (cc + 1) with ⟨hnone, hall⟩ | ⟨c, hc, h0, h1, hclear, hall⟩
      · refine .inl ⟨hnone, fun b h0 h1 => ?_⟩
        by_cases hb : cc + 1 ≤ b
        · exact hall b hb (by omega)
        · exact hlower b h0 hb
      · refine .inr ⟨c, hc, by omega, by omega, hclear, fun b h2 h3 => ?_⟩
        by_cases hb : cc + 1 ≤ b
        · exact hall b hb h3
        · exact hlower b h2 hb

/-! ### Step 3 -/

/-- The result of the copy loop: 0 exactly if all its commands are served, and a sector has
been written exactly if the first read was served. -/
theorem writeData_cases (lba0 : Nat) (data : Buf) (size : Nat) {fs : Exfat} (n k : Nat) :
    ((writeData lba0 data size fs n k).1 = 0 ↔ ∀ j < 2 * n, fs.served (fs.issued + j)) ∧
    (writeData lba0 data size fs n k).1 ≠ -5 ∧
    ((writeData lba0 data size fs n k).2.1 ≠ [] ↔ 0 < n ∧ fs.served fs.issued) ∧
    ∀ lba ∈ (writeData lba0 data size fs n k).2.1, ∃ i < n, lba = wrap32 (lba0 + (k + i)) := by
  induction n generalizing fs k with
  | zero =>
    refine ⟨iff_of_true rfl fun j hj => absurd hj (by omega), show (0 : Int) ≠ -5 by decide,
      iff_of_false (fun hne => hne rfl) fun h => absurd h.1 (by omega), fun lba hlba => ?_⟩
    cases hlba
  | succ n ih =>
    by_cases h0 : fs.served fs.issued
    · obtain ⟨ok, m, log, hrun, hfaults, hok, hissued, -⟩ := writeData_round lba0 data size h0 n k
      rw [hrun]
      cases ok with
      | true =>
        have h1 : fs.served (fs.issued + 1) := hok.mp rfl
        obtain ⟨hcode, hne, -, hplace⟩ := @ih (fs.withMedia m log) (k + 1)
        refine ⟨?_, hne, iff_of_true (List.cons_ne_nil _ _) ⟨by omega, h0⟩, fun lba hlba => ?_⟩
        · refine hcode.trans ?_
          rw [hissued rfl, show 2 * (n + 1) = 2 + 2 * n by omega, served_two h0 h1]
          exact forall₂_congr fun j _ => withMedia_served hfaults _
        · rcases List.mem_cons.mp hlba with rfl | hlba
          · exact ⟨0, by omega, rfl⟩
          · obtain ⟨i, hi, rfl⟩ := hplace lba hlba
            exact ⟨i + 1, by omega, by rw [show k + (i + 1) = k + 1 + i by omega]⟩
      | false =>
        have h1 : ¬ fs.served (fs.issued + 1) := fun h => absurd (hok.mpr h) Bool.false_ne_true
        refine ⟨iff_of_false (show ¬ (-3 : Int) = 0 by decide) fun hall => h1 (hall 1 (by omega)),
          show (-3 : Int) ≠ -5 by decide, iff_of_true (List.cons_ne_nil _ _) ⟨by omega, h0⟩,
          fun lba hlba => ⟨0, by omega, ?_⟩⟩
        exact List.mem_singleton.mp hlba
    · obtain ⟨m, hm⟩ := secRd_failed h0 (wrap32 (lba0 + k)) fs.stack 0
      rw [writeData]
      dsimp only
      rw [hm]
      refine ⟨iff_of_false (show ¬ (-2 : Int) = 0 by decide) fun hall => h0 (hall 0 (by omega)),
        show (-2 : Int) ≠ -5 by decide, iff_of_false (fun hne => hne rfl) fun h => h0 h.2,
        fun lba hlba => ?_⟩
      cases hlba

end Exfat

end WinDOS
