import WinDOS.User.Dispatch

/-!
# The US bits (`_start` in `kernel.cpp`)

`_start` opens the pages up to `_bss_end` to user code: it sets bit 2 of the first entry of the
two upper tables and of the entries of the first page directory. The page walk of the processor
is modelled next to it, for the read of a user address.
-/

set_option autoImplicit false

namespace WinDOS

open WordStack

/-- Physical memory as the quadword at an address. -/
abbrev PhysMem := Nat → Word

def presentBit (e : Word) : Bool := e.getLsbD 0
def userBit (e : Word) : Bool := e.getLsbD 2
def largeBit (e : Word) : Bool := e.getLsbD 7

/-- The table an entry points to, for the processor. -/
def tableBase (e : Word) : Nat := (e &&& 0xFFFFFFFFFF000).toNat

/-- The table an entry points to, for `_start`. -/
def tableOf (e : Word) : Nat := (e &&& 0xFFFFF000).toNat

/-- The walk for an access from Ring 3: every entry on the way is present and open to the user.
A large entry of the third or second level ends the walk. -/
def userAccess (mem : PhysMem) (cr3 a : Word) : Bool :=
  let n := a.toNat
  let e4 := mem (tableBase cr3 + 8 * (n / 2 ^ 39 % 512))
  let e3 := mem (tableBase e4 + 8 * (n / 2 ^ 30 % 512))
  let e2 := mem (tableBase e3 + 8 * (n / 2 ^ 21 % 512))
  let e1 := mem (tableBase e2 + 8 * (n / 2 ^ 12 % 512))
  (n < 2 ^ 47 || 2 ^ 64 - 2 ^ 47 ≤ n) && (presentBit e4 && userBit e4) &&
    (presentBit e3 && userBit e3) &&
      (largeBit e3 || (presentBit e2 && userBit e2) &&
        (largeBit e2 || presentBit e1 && userBit e1))

/-! ### The edit -/

/-- `e |= 0x4`. -/
def openEntry (mem : PhysMem) (p : Nat) : PhysMem := Function.update mem p (mem p ||| 4)

/-- The first entries of the two upper tables. -/
def openUpper (mem : PhysMem) (cr3 : Word) : PhysMem :=
  openEntry (openEntry mem cr3.toNat) (tableOf (mem cr3.toNat))

/-- The first `n` rounds of the loop over the page directory at `pdt`, with the addresses of
the entries it reads or writes. -/
def openPages (pdt : Nat) (mem : PhysMem) : Nat → PhysMem × List Nat
  | 0 => (mem, [])
  | n + 1 =>
    let (mem, touched) := openPages pdt mem n
    let p := pdt + 8 * n
    (if mem p &&& 1 ≠ 0 then openEntry mem p else mem, touched ++ [p])

/-- The page directory that is edited. -/
def editedDirectory (mem : PhysMem) (cr3 : Word) : Nat :=
  tableOf (mem (tableOf (mem cr3.toNat)))

/-- The block of `_start`: memory after it, and the entries its loop touches. -/
def setUserBits (mem : PhysMem) (cr3 bssEnd : Word) : PhysMem × List Nat :=
  openPages (editedDirectory mem cr3) (openUpper mem cr3) ((bssEnd >>> 21).toNat + 1)

/-- The loop stays inside its page directory, and Ring 3 can then access the pointers that
`syscall_dispatch` accepts, and from 0x1000 on no others. -/
structure UserPagesRight (mem : PhysMem) (cr3 bssEnd : Word) : Prop where
  inTable : ∀ p ∈ (setUserBits mem cr3 bssEnd).2,
    editedDirectory mem cr3 ≤ p ∧ p < editedDirectory mem cr3 + 4096
  accepts : ∀ a : Word, 0x1000 ≤ a →
    userAccess (setUserBits mem cr3 bssEnd).1 cr3 a = acceptsPointer bssEnd a

/-! ### Identity maps -/

/-- The tables of a map: `pd k` describes gigabyte `k`, if it is mapped. -/
structure PageTables where
  pml4 : Nat
  pdpt : Nat
  pd : Nat → Nat
  mapped : Nat → Bool

/-- A 4-level identity map of low memory whose leaves are present pages of 2 MiB. The tables
are pages of their own below 4 GiB, and the first gigabyte is mapped. -/
structure IdentityMap (t : PageTables) (mem : PhysMem) (cr3 : Word) : Prop where
  cr3 : cr3.toNat = t.pml4
  first : t.mapped 0 = true
  aligned : t.pml4 % 4096 = 0 ∧ t.pdpt % 4096 = 0 ∧ ∀ k < 512, t.mapped k → t.pd k % 4096 = 0
  low : t.pml4 < 2 ^ 32 ∧ t.pdpt < 2 ^ 32 ∧ ∀ k < 512, t.mapped k → t.pd k < 2 ^ 32
  upper : t.pml4 ≠ t.pdpt ∧ ∀ k < 512, t.mapped k → t.pd k ≠ t.pml4 ∧ t.pd k ≠ t.pdpt
  distinct : ∀ j < 512, ∀ k < 512, t.mapped j → t.mapped k → t.pd j = t.pd k → j = k
  pml4e : presentBit (mem t.pml4) ∧ tableBase (mem t.pml4) = t.pdpt
  noOther : ∀ j < 512, j ≠ 0 → presentBit (mem (t.pml4 + 8 * j)) = false
  pdpte : ∀ k < 512, presentBit (mem (t.pdpt + 8 * k)) = t.mapped k
  pdpteTable : ∀ k < 512, t.mapped k →
    largeBit (mem (t.pdpt + 8 * k)) = false ∧ tableBase (mem (t.pdpt + 8 * k)) = t.pd k
  leaf : ∀ k < 512, t.mapped k → ∀ i < 512,
    presentBit (mem (t.pd k + 8 * i)) ∧ largeBit (mem (t.pd k + 8 * i)) ∧
      tableBase (mem (t.pd k + 8 * i)) / 2 ^ 21 = k * 512 + i

/-! ### Entries -/

@[simp] theorem presentBit_or (e : Word) : presentBit (e ||| 4) = presentBit e := by
  simp [presentBit]

@[simp] theorem userBit_or (e : Word) : userBit (e ||| 4) = true := by
  simp [userBit]

@[simp] theorem largeBit_or (e : Word) : largeBit (e ||| 4) = largeBit e := by
  simp [largeBit]

@[simp] theorem tableBase_or (e : Word) : tableBase (e ||| 4) = tableBase e := by
  have hmask : (4 : Word) &&& 0xFFFFFFFFFF000 = 0 := by decide
  unfold tableBase
  rw [BitVec.and_or_distrib_right, hmask]
  simp

theorem presentBit_iff (e : Word) : e &&& 1 ≠ 0 ↔ presentBit e = true := by
  rw [not_iff_comm, Bool.not_eq_true, presentBit]
  constructor
  · intro h
    apply BitVec.eq_of_getLsbD_eq
    intro i hi
    rw [BitVec.getLsbD_and]
    cases i with
    | zero => rw [h]; rfl
    | succ i =>
      have : (1 : Word).getLsbD (i + 1) = false := by
        rw [show (1 : Word) = 1#64 from rfl, BitVec.getLsbD_one]
        simp
      rw [this, Bool.and_false, show (0 : Word) = 0#64 from rfl, BitVec.getLsbD_zero]
  · intro h
    have := congrArg (fun w : Word => w.getLsbD 0) h
    simpa using this

theorem tableOf_eq {e : Word} (h : tableBase e < 2 ^ 32) : tableOf e = tableBase e := by
  have hmask : (0xFFFFF000 : Word) = 0xFFFFFFFFFF000 &&& 0xFFFFFFFF := by decide
  unfold tableOf tableBase at *
  rw [hmask, ← BitVec.and_assoc, BitVec.toNat_and,
    show (0xFFFFFFFF : Word).toNat = 2 ^ 32 - 1 from rfl, Nat.and_two_pow_sub_one_eq_mod,
    Nat.mod_eq_of_lt h]

theorem tableBase_of_aligned {e : Word} (h0 : e.toNat % 4096 = 0) (h1 : e.toNat < 2 ^ 52) :
    tableBase e = e.toNat := by
  have hmask : (0xFFFFFFFFFF000 : Word).toNat = (2 ^ 40 - 1) <<< 12 := by decide
  unfold tableBase
  rw [BitVec.toNat_and, hmask, and_fieldMask]
  omega

/-! ### What the edit leaves alone -/

/-- Some entries have been opened, nothing else has changed. -/
def UserOpened (mem mem' : PhysMem) : Prop := ∀ p, mem' p = mem p ∨ mem' p = mem p ||| 4

theorem UserOpened.refl (mem : PhysMem) : UserOpened mem mem := fun _ => .inl rfl

theorem openUpper_of_ne {mem : PhysMem} {cr3 : Word} {p : Nat} (h4 : p ≠ cr3.toNat)
    (h3 : p ≠ tableOf (mem cr3.toNat)) : openUpper mem cr3 p = mem p := by
  unfold openUpper openEntry
  rw [Function.update_of_ne h3, Function.update_of_ne h4]

theorem UserOpened.entry {mem mem' : PhysMem} (h : UserOpened mem mem') (p : Nat) :
    UserOpened mem (openEntry mem' p) := by
  intro q
  unfold openEntry
  by_cases hq : q = p
  · subst hq
    rw [Function.update_self]
    rcases h q with h | h
    · rw [h]
      exact .inr rfl
    · rw [h, BitVec.or_assoc]
      exact .inr (congrArg (mem q ||| ·) (by decide))
  · rw [Function.update_of_ne hq]
    exact h q

theorem UserOpened.pages {mem mem' : PhysMem} (h : UserOpened mem mem') (pdt n : Nat) :
    UserOpened mem (openPages pdt mem' n).1 := by
  induction n with
  | zero => exact h
  | succ n ih =>
    rw [openPages]
    dsimp only
    split
    · exact ih.entry _
    · exact ih

section Map

variable {t : PageTables} {mem mem' : PhysMem} {cr3 : Word}

theorem IdentityMap.userOpened (h : IdentityMap t mem cr3) (ho : UserOpened mem mem') :
    IdentityMap t mem' cr3 := by
  have hp : ∀ p, presentBit (mem' p) = presentBit (mem p) := fun p => by
    rcases ho p with h | h <;> rw [h]
    rw [presentBit_or]
  have hl : ∀ p, largeBit (mem' p) = largeBit (mem p) := fun p => by
    rcases ho p with h | h <;> rw [h]
    rw [largeBit_or]
  have hb : ∀ p, tableBase (mem' p) = tableBase (mem p) := fun p => by
    rcases ho p with h | h <;> rw [h]
    rw [tableBase_or]
  refine { h with pml4e := ?_, noOther := ?_, pdpte := ?_, pdpteTable := ?_, leaf := ?_ }
  · rw [hp, hb]
    exact h.pml4e
  · intro j hj h0
    rw [hp]
    exact h.noOther j hj h0
  · intro k hk
    rw [hp]
    exact h.pdpte k hk
  · intro k hk hm
    rw [hl, hb]
    exact h.pdpteTable k hk hm
  · intro k hk hm i hi
    rw [hp, hl, hb]
    exact h.leaf k hk hm i hi

theorem IdentityMap.tableOf_pml4e (h : IdentityMap t mem cr3) : tableOf (mem t.pml4) = t.pdpt := by
  rw [tableOf_eq (by rw [h.pml4e.2]; exact h.low.2.1), h.pml4e.2]

theorem IdentityMap.editedDirectory (h : IdentityMap t mem cr3) :
    editedDirectory mem cr3 = t.pd 0 := by
  have hbase : tableBase (mem t.pdpt) = t.pd 0 := (h.pdpteTable 0 (by decide) h.first).2
  unfold WinDOS.editedDirectory
  rw [h.cr3, h.tableOf_pml4e, tableOf_eq (by rw [hbase]; exact h.low.2.2 0 (by decide) h.first),
    hbase]

/-- The walk for the addresses that the map describes. -/
theorem IdentityMap.userAccess_eq (h : IdentityMap t mem cr3) (a : Word) :
    userAccess mem cr3 a = (decide (a.toNat < 2 ^ 39) && userBit (mem t.pml4) &&
      (t.mapped (a.toNat / 2 ^ 30) && userBit (mem (t.pdpt + 8 * (a.toNat / 2 ^ 30)))) &&
        userBit (mem (t.pd (a.toNat / 2 ^ 30) + 8 * (a.toNat / 2 ^ 21 % 512)))) := by
  have hcr3 : tableBase cr3 = t.pml4 := by
    have hlow := h.low.1
    rw [← h.cr3]
    exact tableBase_of_aligned (by rw [h.cr3]; exact h.aligned.1) (by rw [h.cr3]; omega)
  have hlt := a.isLt
  unfold userAccess
  dsimp only
  rw [hcr3]
  by_cases hn : a.toNat < 2 ^ 39
  · have h4 : a.toNat / 2 ^ 39 % 512 = 0 := by omega
    have h3 : a.toNat / 2 ^ 30 % 512 = a.toNat / 2 ^ 30 := by omega
    have hk : a.toNat / 2 ^ 30 < 512 := by omega
    have hi : a.toNat / 2 ^ 21 % 512 < 512 := by omega
    rw [h4, Nat.mul_zero, Nat.add_zero, h.pml4e.1, h.pml4e.2, h3, h.pdpte _ hk,
      decide_eq_true (show a.toNat < 2 ^ 47 by omega), decide_eq_true hn]
    cases hm : t.mapped (a.toNat / 2 ^ 30) with
    | false => simp
    | true =>
      obtain ⟨hlarge, hbase⟩ := h.pdpteTable _ hk hm
      obtain ⟨hpres, hleaf, -⟩ := h.leaf _ hk hm _ hi
      rw [hlarge, hbase, hpres, hleaf]
      simp
  · have hno : presentBit (mem (t.pml4 + 8 * (a.toNat / 2 ^ 39 % 512))) = false ∨
        ¬ (a.toNat < 2 ^ 47 ∨ 2 ^ 64 - 2 ^ 47 ≤ a.toNat) := by
      by_cases hc : a.toNat < 2 ^ 47 ∨ 2 ^ 64 - 2 ^ 47 ≤ a.toNat
      · exact .inl (h.noOther _ (by omega) (by omega))
      · exact .inr hc
    rw [decide_eq_false hn]
    rcases hno with hno | hno
    · rw [hno]
      simp
    · rw [not_or] at hno
      rw [decide_eq_false hno.1, decide_eq_false hno.2]
      simp

/-! ### The user bits after the edit -/

/-- The rounds below `n` open the present entries below `n` of the directory, and no others. -/
theorem openPages_at {pdt n : Nat} (hp : ∀ i < n, presentBit (mem (pdt + 8 * i)) = true) (p : Nat) :
    (openPages pdt mem n).1 p = if ∃ i < n, p = pdt + 8 * i then mem p ||| 4 else mem p := by
  induction n generalizing p with
  | zero => exact (if_neg (by rintro ⟨i, hi, -⟩; omega)).symm
  | succ n ih =>
    have ih := fun q => ih (fun i hi => hp i (by omega)) q
    have hnow : (openPages pdt mem n).1 (pdt + 8 * n) = mem (pdt + 8 * n) := by
      rw [ih, if_neg]
      rintro ⟨i, hi, heq⟩
      omega
    rw [openPages]
    dsimp only
    rw [if_pos (by rw [presentBit_iff, hnow]; exact hp n (by omega)), openEntry, hnow]
    by_cases hlast : p = pdt + 8 * n
    · subst hlast
      rw [Function.update_self, if_pos ⟨n, by omega, rfl⟩]
    · rw [Function.update_of_ne hlast, ih]
      refine if_congr ?_ rfl rfl
      constructor
      · rintro ⟨i, hi, rfl⟩
        exact ⟨i, by omega, rfl⟩
      · rintro ⟨i, hi, rfl⟩
        exact ⟨i, by rcases Nat.lt_succ_iff_lt_or_eq.mp hi with h | rfl; exacts [h, absurd rfl hlast],
          rfl⟩

theorem openPages_touched (pdt : Nat) (mem : PhysMem) (n : Nat) :
    (openPages pdt mem n).2 = (List.range n).map (pdt + 8 * ·) := by
  induction n with
  | zero => rfl
  | succ n ih => rw [openPages, List.range_succ, List.map_append, ← ih]; rfl

/-- With the limit in the first gigabyte, the pages up to that of `_bss_end` become accessible,
and no others that are not so once the upper entries are open. -/
theorem IdentityMap.userAccess_edited (h : IdentityMap t mem cr3) {bssEnd : Word}
    (hb : bssEnd.toNat < 2 ^ 30) (a : Word) :
    userAccess (setUserBits mem cr3 bssEnd).1 cr3 a =
      (decide (a.toNat / 2 ^ 21 ≤ bssEnd.toNat / 2 ^ 21) || userAccess (openUpper mem cr3) cr3 a) := by
  have hn : (bssEnd >>> 21).toNat = bssEnd.toNat / 2 ^ 21 := by
    rw [BitVec.toNat_ushiftRight, Nat.shiftRight_eq_div_pow]
  have hup : UserOpened mem (openUpper mem cr3) := ((UserOpened.refl mem).entry _).entry _
  have hmap := h.userOpened hup
  have hmap' := h.userOpened (hup.pages (t.pd 0) ((bssEnd >>> 21).toNat + 1))
  have halign := h.aligned
  have hfirst := halign.2.2 0 (by decide) h.first
  have hleaf := hmap.leaf 0 (by decide) h.first
  have hat := openPages_at (n := (bssEnd >>> 21).toNat + 1) fun i hi => (hleaf i (by omega)).1
  have hpml4 : userBit (openUpper mem cr3 t.pml4) = true := by
    unfold openUpper openEntry
    rw [h.cr3, h.tableOf_pml4e, Function.update_of_ne h.upper.1, Function.update_self, userBit_or]
  have hpdpt : userBit (openUpper mem cr3 t.pdpt) = true := by
    unfold openUpper openEntry
    rw [h.cr3, h.tableOf_pml4e, Function.update_self, userBit_or]
  unfold setUserBits
  rw [h.editedDirectory, hmap'.userAccess_eq, hmap.userAccess_eq]
  by_cases ha : a.toNat < 2 ^ 39
  · have hk : a.toNat / 2 ^ 30 < 512 := by omega
    have hpage : ∀ p, p % 4096 = 0 → p ≠ t.pd 0 → ∀ j < 512,
        ¬ ∃ i < (bssEnd >>> 21).toNat + 1, p + 8 * j = t.pd 0 + 8 * i := by
      rintro p hp hne j hj ⟨i, hi, heq⟩
      omega
    have hroot : ¬ ∃ i < (bssEnd >>> 21).toNat + 1, t.pml4 = t.pd 0 + 8 * i :=
      hpage t.pml4 halign.1 (h.upper.2 0 (by decide) h.first).1.symm 0 (by decide)
    rw [hat t.pml4, if_neg hroot, hpml4, hat (t.pdpt + 8 * _), if_neg (hpage t.pdpt halign.2.1
      (h.upper.2 0 (by decide) h.first).2.symm _ hk), decide_eq_true ha, Bool.true_and]
    by_cases h0 : a.toNat / 2 ^ 30 = 0
    · rw [h0, h.first, Nat.mul_zero, Nat.add_zero, hpdpt, hat (t.pd 0 + 8 * _)]
      by_cases hin : a.toNat / 2 ^ 21 ≤ bssEnd.toNat / 2 ^ 21
      · rw [if_pos ⟨_, by omega, rfl⟩, decide_eq_true hin, userBit_or]
        rfl
      · rw [if_neg (by rintro ⟨i, hi, heq⟩; omega), decide_eq_false hin]
        rfl
    · have hout : ¬ a.toNat / 2 ^ 21 ≤ bssEnd.toNat / 2 ^ 21 := by omega
      rw [decide_eq_false hout, Bool.false_or]
      cases hm : t.mapped (a.toNat / 2 ^ 30) with
      | false => rfl
      | true =>
        have hne : t.pd (a.toNat / 2 ^ 30) ≠ t.pd 0 := fun heq =>
          h0 (h.distinct _ hk 0 (by decide) hm h.first heq)
        rw [hat (t.pd (a.toNat / 2 ^ 30) + 8 * _), if_neg (hpage _ (halign.2.2 _ hk hm) hne _
          (by omega))]
  · rw [decide_eq_false ha, decide_eq_false (by omega)]
    rfl

end Map

/-- For an identity map, the edit is right exactly if `_bss_end` lies below 1 GiB and not on a
page boundary, and no page from the limit on has been open to the user before. -/
theorem user_pages_right_iff {t : PageTables} {mem : PhysMem} {cr3 : Word}
    (h : IdentityMap t mem cr3) (bssEnd : Word) :
    UserPagesRight mem cr3 bssEnd ↔ bssEnd.toNat < 2 ^ 30 ∧ bssEnd.toNat % 2 ^ 21 ≠ 0 ∧
      ∀ a, userLimit bssEnd ≤ a → userAccess (openUpper mem cr3) cr3 a = false := by
  have hn : (bssEnd >>> 21).toNat = bssEnd.toNat / 2 ^ 21 := by
    rw [BitVec.toNat_ushiftRight, Nat.shiftRight_eq_div_pow]
  have haccept : ∀ a : Word, acceptsPointer bssEnd a = true ↔
      0x1000 ≤ a.toNat ∧ a.toNat < (userLimit bssEnd).toNat := fun a => by
    rw [acceptsPointer, Bool.not_eq_true', Bool.or_eq_false_iff, decide_eq_false_iff_not,
      decide_eq_false_iff_not, BitVec.not_lt, BitVec.not_le, BitVec.le_def, BitVec.lt_def]
    rfl
  constructor
  · rintro ⟨htable, hwalk⟩
    have hb : bssEnd.toNat < 2 ^ 30 := by
      have hlast := htable (editedDirectory mem cr3 + 8 * (bssEnd >>> 21).toNat) (by
        unfold setUserBits
        rw [openPages_touched]
        exact List.mem_map.mpr ⟨_, List.mem_range.mpr (Nat.lt_succ_self _), rfl⟩)
      omega
    have hlim := @userLimit_toNat bssEnd (by omega)
    have hpage : bssEnd.toNat % 2 ^ 21 ≠ 0 := fun h0 => by
      have hval : (bssEnd + 0x1000).toNat = bssEnd.toNat + 0x1000 := by
        rw [BitVec.toNat_add, show (0x1000 : Word).toNat = 0x1000 from rfl]
        omega
      have hright := hwalk (bssEnd + 0x1000) (by
        rw [BitVec.le_def, hval, show (0x1000 : Word).toNat = 0x1000 from rfl]
        omega)
      rw [h.userAccess_edited hb, decide_eq_true (by omega), Bool.true_or] at hright
      have := ((haccept _).mp hright.symm).2
      omega
    refine ⟨hb, hpage, fun a ha => ?_⟩
    rw [BitVec.le_def] at ha
    have hright := hwalk a (by
      rw [BitVec.le_def, show (0x1000 : Word).toNat = 0x1000 from rfl]
      omega)
    have hrej : acceptsPointer bssEnd a = false := by
      rw [← Bool.not_eq_true, haccept]
      omega
    rw [h.userAccess_edited hb, hrej, Bool.or_eq_false_iff] at hright
    exact hright.2
  · rintro ⟨hb, hpage, hclosed⟩
    have hlim := @userLimit_toNat bssEnd (by omega)
    refine ⟨fun p hp => ?_, fun a ha => ?_⟩
    · unfold setUserBits at hp
      rw [openPages_touched] at hp
      obtain ⟨i, hi, rfl⟩ := List.mem_map.mp hp
      have := List.mem_range.mp hi
      omega
    · rw [BitVec.le_def, show (0x1000 : Word).toNat = 0x1000 from rfl] at ha
      rw [h.userAccess_edited hb]
      by_cases hlt : a.toNat < (userLimit bssEnd).toNat
      · rw [(haccept a).mpr ⟨ha, hlt⟩, decide_eq_true (by omega), Bool.true_or]
      · rw [hclosed a (by rw [BitVec.le_def]; omega), decide_eq_false (by omega), Bool.or_false]
        symm
        rw [← Bool.not_eq_true, haccept]
        omega

/-- One mapped gigabyte, closed to the user: the tables lie at 0x1000, 0x2000 and 0x3000. -/
def closedTables : PageTables := ⟨0x1000, 0x2000, fun _ => 0x3000, fun k => k == 0⟩

def closedMem : PhysMem := fun p =>
  if p = 0x1000 then 0x2003
  else if p = 0x2000 then 0x3003
  else if 0x3000 ≤ p ∧ p < 0x4000 then BitVec.ofNat 64 ((p - 0x3000) / 8 * 2 ^ 21 + 0x83)
  else 0

theorem closedMem_leaf {i : Nat} (hi : i < 512) :
    closedMem (0x3000 + 8 * i) = BitVec.ofNat 64 (i * 2 ^ 21 + 0x83) := by
  unfold closedMem
  rw [if_neg (by omega), if_neg (by omega), if_pos (by omega),
    show (0x3000 + 8 * i - 0x3000) / 8 = i by omega]

theorem closed_identityMap : IdentityMap closedTables closedMem 0x1000 where
  cr3 := rfl
  first := rfl
  aligned := ⟨rfl, rfl, fun _ _ _ => by change 0x3000 % 4096 = 0; decide⟩
  low := ⟨by decide, by decide, fun _ _ _ => by change 0x3000 < 2 ^ 32; decide⟩
  upper := ⟨by decide, fun _ _ _ => ⟨by change 0x3000 ≠ 0x1000; decide, by
    change 0x3000 ≠ 0x2000; decide⟩⟩
  distinct := fun j _ k _ hj hk _ => (beq_iff_eq.mp hj).trans (beq_iff_eq.mp hk).symm
  pml4e := by decide +kernel
  noOther := by decide +kernel
  pdpte := by decide +kernel
  pdpteTable := fun k _ hk => by
    obtain rfl : k = 0 := beq_iff_eq.mp hk
    decide +kernel
  leaf := fun k _ hk => by
    obtain rfl : k = 0 := beq_iff_eq.mp hk
    decide +kernel

theorem closed_userAccess (a : Word) : userAccess (openUpper closedMem 0x1000) 0x1000 a = false := by
  have hmap : IdentityMap closedTables (openUpper closedMem 0x1000) 0x1000 :=
    closed_identityMap.userOpened (((UserOpened.refl closedMem).entry _).entry _)
  rw [hmap.userAccess_eq, Bool.and_eq_false_iff]
  have hleaf : ∀ i < 512, userBit (openUpper closedMem 0x1000 (0x3000 + 8 * i)) = false := by
    intro i hi
    have hcr3 : (0x1000 : Word).toNat = 0x1000 := by decide
    have hpdpt : tableOf (closedMem (0x1000 : Word).toNat) = 0x2000 := by decide +kernel
    have hbit : ¬ (i * 2 ^ 21 + 0x83) / 2 ^ 2 % 2 = 1 := by omega
    rw [openUpper_of_ne (by omega) (by omega), closedMem_leaf hi, userBit, BitVec.getLsbD_ofNat,
      Nat.testBit_eq_decide_div_mod_eq, decide_eq_false hbit, Bool.and_false]
  exact .inr (hleaf _ (by omega))

theorem user_pages_right_closed : UserPagesRight closedMem 0x1000 0xA5F000 :=
  (user_pages_right_iff closed_identityMap 0xA5F000).mpr
    ⟨by decide, by decide, fun a _ => closed_userAccess a⟩

/-- `_bss_end` on a page boundary: the page from there on is opened and its pointers are
rejected. `_bss_end` at 1 GiB: the loop leaves its page directory. -/
theorem user_pages_wrong : IdentityMap closedTables closedMem 0x1000 ∧
    ¬ UserPagesRight closedMem 0x1000 0x400000 ∧ ¬ UserPagesRight closedMem 0x1000 0x40000000 := by
  refine ⟨closed_identityMap, fun h => ?_, fun h => ?_⟩
  · exact absurd (h.accepts 0x400000 (by decide)) (by decide +kernel)
  · have hlast := (h.inTable (editedDirectory closedMem 0x1000 + 8 * 512) (by
      unfold setUserBits
      rw [openPages_touched]
      exact List.mem_map.mpr ⟨512, List.mem_range.mpr (by decide), rfl⟩)).2
    omega

end WinDOS
