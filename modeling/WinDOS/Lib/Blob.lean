import WinDOS.Lib.Bytes

/-!
# Byte strings that grow

A `Blob` is a buffer with a size. `append` lengthens it; `put`, `pack` and `paste` overwrite
bytes inside it and fail outside, and `pack` fails for a number that its field cannot hold.
-/

set_option autoImplicit false

namespace Bytes

structure Blob where
  size : Nat
  data : Buf

namespace Blob

def zeros (n : Nat) : Blob := ⟨n, fun _ => 0⟩

def ofList (bs : List Byte) : Blob := ⟨bs.length, fun i => bs.getD i 0⟩

def append (a b : Blob) : Blob := ⟨a.size + b.size, blit a.data a.size b.data b.size⟩

instance : Append Blob := ⟨append⟩

def put (b : Blob) (off : Nat) (v : Byte) : Option Blob :=
  if off < b.size then some { b with data := blit b.data off (fun _ => v) 1 } else none

/-- The little-endian number `v` in the `n` bytes from `off` on. -/
def pack (b : Blob) (n off v : Nat) : Option Blob :=
  if off + n ≤ b.size ∧ v < 256 ^ n then some { b with data := blit b.data off (leBytes v) n }
  else none

/-- The bytes `bs` from `off` on. -/
def paste (b : Blob) (off : Nat) (bs : List Byte) : Option Blob :=
  if off + bs.length ≤ b.size then
    some { b with data := blit b.data off (ofList bs).data bs.length }
  else none

section Append

variable {a b : Blob} {i : Nat}

@[simp] theorem size_zeros (n : Nat) : (zeros n).size = n := rfl

@[simp] theorem size_append (a b : Blob) : (a ++ b).size = a.size + b.size := rfl

theorem append_data_left (h : i < a.size) : (a ++ b).data i = a.data i := blit_below h

theorem append_data_right (h : i < b.size) : (a ++ b).data (a.size + i) = b.data i := by
  refine (blit_in (Nat.le_add_right _ _) (Nat.add_lt_add_left h _)).trans ?_
  rw [Nat.add_sub_cancel_left]

end Append

/-! ### Writes inside a blob

`Wrote b b' off len` says that `b'` is `b` but for the `len` bytes from `off` on. -/

def Wrote (b b' : Blob) (off len : Nat) : Prop :=
  b'.size = b.size ∧ ∀ i, i < off ∨ off + len ≤ i → b'.data i = b.data i

section Write

variable {b b' b'' : Blob} {off len v n : Nat}

theorem Wrote.refl (b : Blob) (off len : Nat) : Wrote b b off len := ⟨rfl, fun _ _ => rfl⟩

theorem Wrote.trans (h : Wrote b b' off len) (h' : Wrote b' b'' off len) :
    Wrote b b'' off len :=
  ⟨h'.1.trans h.1, fun i hi => (h'.2 i hi).trans (h.2 i hi)⟩

theorem Wrote.mono {off' len' : Nat} (h : Wrote b b' off len) (hlo : off' ≤ off)
    (hhi : off + len ≤ off' + len') : Wrote b b' off' len' :=
  ⟨h.1, fun i hi => h.2 i (by omega)⟩

theorem Wrote.le_eq (h : Wrote b b' off len) {k m : Nat} (hk : k + m ≤ off ∨ off + len ≤ k) :
    le b'.data k m = le b.data k m :=
  le_congr fun i h0 h1 => h.2 i (by omega)

theorem put_eq_some {x : Byte} (h : b.put off x = some b') : Wrote b b' off 1 ∧ b'.data off = x := by
  unfold put at h
  split at h
  · obtain rfl := Option.some.inj h
    exact ⟨⟨rfl, fun i hi => if_neg (by omega)⟩, if_pos (by omega)⟩
  · cases h

theorem pack_eq_some (h : b.pack n off v = some b') :
    Wrote b b' off n ∧ le b'.data off n = v := by
  unfold pack at h
  split at h
  · rename_i hin
    obtain rfl := Option.some.inj h
    exact ⟨⟨rfl, fun i hi => if_neg (by omega)⟩, le_blit_leBytes hin.2⟩
  · cases h

theorem paste_eq_some {bs : List Byte} (h : b.paste off bs = some b') :
    Wrote b b' off bs.length ∧ ∀ i < bs.length, b'.data (off + i) = bs.getD i 0 := by
  unfold paste at h
  split at h
  · obtain rfl := Option.some.inj h
    refine ⟨⟨rfl, fun i hi => if_neg (by omega)⟩, fun i hi => ?_⟩
    refine (blit_in (Nat.le_add_right _ _) (Nat.add_lt_add_left hi _)).trans ?_
    rw [Nat.add_sub_cancel_left]
    rfl
  · cases h

/-! Sequences of writes that succeed and lead to a result with `Q`. -/

variable {β : Type} {f : Blob → Option β} {Q : β → Prop}

theorem put_then {x : Byte} (h : off < b.size)
    (hf : ∀ b', b'.size = b.size → ∃ r, f b' = some r ∧ Q r) :
    ∃ r, (b.put off x).bind f = some r ∧ Q r := by
  rw [put, if_pos h]
  exact hf _ rfl

theorem pack_then (h : off + n ≤ b.size) (hv : v < 256 ^ n)
    (hf : ∀ b', b'.size = b.size → ∃ r, f b' = some r ∧ Q r) :
    ∃ r, (b.pack n off v).bind f = some r ∧ Q r := by
  rw [pack, if_pos ⟨h, hv⟩]
  exact hf _ rfl

theorem paste_then {bs : List Byte} (h : off + bs.length ≤ b.size)
    (hf : ∀ b', b'.size = b.size → ∃ r, f b' = some r ∧ Q r) :
    ∃ r, (b.paste off bs).bind f = some r ∧ Q r := by
  rw [paste, if_pos h]
  exact hf _ rfl

end Write

/-! ### Blobs inside blobs -/

/-- `c` stands in `b` from `off` on. -/
def Has (b c : Blob) (off : Nat) : Prop :=
  off + c.size ≤ b.size ∧ ∀ i < c.size, b.data (off + i) = c.data i

section Has

variable {b c : Blob} {off : Nat}

theorem has_self (b : Blob) : b.Has b 0 :=
  ⟨by omega, fun i _ => by rw [Nat.zero_add]⟩

theorem Has.append_left (h : b.Has c off) (d : Blob) : (b ++ d).Has c off := by
  refine ⟨Nat.le_trans h.1 (Nat.le_add_right _ _), fun i hi => ?_⟩
  have hin := h.1
  exact (append_data_left (by omega)).trans (h.2 i hi)

theorem Has.append_right (h : b.Has c off) (d : Blob) : (d ++ b).Has c (d.size + off) := by
  have hin := h.1
  refine ⟨?_, fun i hi => ?_⟩
  · rw [size_append]
    omega
  · rw [Nat.add_assoc]
    exact (append_data_right (by omega)).trans (h.2 i hi)

theorem Has.le_eq (h : b.Has c off) {k n : Nat} (hk : k + n ≤ c.size) :
    le b.data (off + k) n = le c.data k n := by
  rw [← le_from]
  exact le_congr fun i h0 h1 => h.2 i (by omega)

end Has

end Blob

end Bytes
