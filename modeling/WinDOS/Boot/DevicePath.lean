import WinDOS.Lib.Bytes
import Mathlib.Data.List.Basic
import Mathlib.Data.List.GetD

/-!
# Where the loader was loaded from (`parse_dp`)

The device path is read as raw bytes, which begin at offset 0 and may be any bytes: records of
type, subtype, length and data, up to an end node.
-/

set_option autoImplicit false

namespace WinDOS

open Bytes

/-- The variables of `parse_dp`. -/
structure DpState where
  kind : BitVec 32
  bus : BitVec 32
  dev : BitVec 32
  func : BitVec 32
  ach : BitVec 32
  adv : BitVec 32
  plba : BitVec 32
  psz : BitVec 32
  seenPci : Bool

def DpState.start : DpState := ⟨0, 0, 0, 0, 0, 0, 0, 0, false⟩

/-- The controller's kind, its PCI address, where the partition begins and how long it is, and the
place on an ATA channel. -/
@[ext] structure BootDisk where
  kind : BitVec 32
  addr : BitVec 32
  plba : BitVec 32
  psz : BitVec 32
  ach : BitVec 32
  adv : BitVec 32

/-- The kind that a messaging node of subtype `st` stands for. -/
def dpKind (st : Byte) (kind : BitVec 32) : BitVec 32 :=
  match st with
  | 0x01#8 => 1
  | 0x12#8 => 2
  | 0x17#8 => 3
  | 0x05#8 => 4
  | _ => kind

/-- What the node at `p` changes. -/
def dpNode (mem : Buf) (s : DpState) (p : Nat) : DpState :=
  let t := mem p
  let st := mem (p + 1)
  if t = 0x01#8 ∧ st = 0x02#8 then { s with bus := .ofNat 32 (le mem (p + 8) 4) }
  else if t = 0x01#8 ∧ st = 0x01#8 then
    { s with func := (mem (p + 4)).setWidth 32, dev := (mem (p + 5)).setWidth 32, seenPci := true }
  else if t = 0x03#8 then
    let s := if st = 0x01#8 then
      { s with ach := (mem (p + 4)).setWidth 32, adv := (mem (p + 5)).setWidth 32 } else s
    { s with kind := dpKind st s.kind }
  else if t = 0x04#8 ∧ st = 0x01#8 then
    { s with plba := .ofNat 32 (le mem (p + 8) 8), psz := .ofNat 32 (le mem (p + 16) 8) }
  else s

/-- The loop; `n` is what the counter `guard` leaves of 64 nodes. -/
def dpLoop (mem : Buf) : Nat → Nat → DpState → DpState
  | 0, _, s => s
  | n + 1, p, s =>
    let len := le mem (p + 2) 2
    if len = 0 ∨ mem p = 0x7f#8 then s else dpLoop mem n (p + len) (dpNode mem s p)

def dpAddr (s : DpState) : BitVec 32 :=
  if s.seenPci then s.bus <<< 16 ||| s.dev <<< 8 ||| s.func else 0xFFFFFFFF

def parseDp (mem : Buf) : BootDisk :=
  let s := dpLoop mem 64 0 .start
  ⟨s.kind, dpAddr s, s.plba, s.psz, s.ach, s.adv⟩

/-- The nodes that the loop comes to. -/
def dpVisits (mem : Buf) : Nat → Nat → List Nat
  | 0, _ => []
  | n + 1, p =>
    let len := le mem (p + 2) 2
    if len = 0 ∨ mem p = 0x7f#8 then [] else p :: dpVisits mem n (p + len)

/-! ### Device paths -/

/-- The bytes that a node's fields take, by type and subtype. -/
def fieldBytes : Byte → Byte → Nat
  | 0x02#8, 0x01#8 => 8
  | 0x01#8, 0x01#8 => 2
  | 0x03#8, 0x01#8 => 4
  | 0x04#8, 0x01#8 => 20
  | _, _ => 0

/-- A node in front of the end of the path. -/
structure DpNode where
  type : Byte
  sub : Byte
  data : List Byte
  noEnd : type ≠ 0x7f#8
  fits : 4 + data.length < 2 ^ 16
  covers : fieldBytes type sub ≤ data.length

namespace DpNode

def length (n : DpNode) : Nat := 4 + n.data.length

def bytes (n : DpNode) : List Byte :=
  [n.type, n.sub, .ofNat 8 n.length, .ofNat 8 (n.length / 256)] ++ n.data

/-- The node's bytes by offset. -/
def buf (n : DpNode) : Buf := fun i => n.bytes.getD i 0

def isAcpi (n : DpNode) : Prop := n.type = 0x02#8 ∧ n.sub = 0x01#8
def isPccard (n : DpNode) : Prop := n.type = 0x01#8 ∧ n.sub = 0x02#8
def isPci (n : DpNode) : Prop := n.type = 0x01#8 ∧ n.sub = 0x01#8
def isAtapi (n : DpNode) : Prop := n.type = 0x03#8 ∧ n.sub = 0x01#8
def isHardDrive (n : DpNode) : Prop := n.type = 0x04#8 ∧ n.sub = 0x01#8

instance (n : DpNode) : Decidable n.isAcpi := inferInstanceAs (Decidable (_ ∧ _))
instance (n : DpNode) : Decidable n.isPccard := inferInstanceAs (Decidable (_ ∧ _))
instance (n : DpNode) : Decidable n.isPci := inferInstanceAs (Decidable (_ ∧ _))
instance (n : DpNode) : Decidable n.isAtapi := inferInstanceAs (Decidable (_ ∧ _))
instance (n : DpNode) : Decidable n.isHardDrive := inferInstanceAs (Decidable (_ ∧ _))

/-- A field of the nodes of one kind. -/
def field {α : Type} (is : DpNode → Prop) [DecidablePred is] (get : DpNode → α) (n : DpNode) :
    Option α := if is n then some (get n) else none

/-- The kind of controller that a messaging node names. -/
def kind (n : DpNode) : Option (BitVec 32) :=
  if n.type = 0x03#8 then
    match n.sub with
    | 0x01#8 => some 1
    | 0x12#8 => some 2
    | 0x17#8 => some 3
    | 0x05#8 => some 4
    | _ => none
  else none

def uid (n : DpNode) : BitVec 32 := .ofNat 32 (le n.buf 8 4)
def byte (i : Nat) (n : DpNode) : BitVec 32 := (n.buf i).setWidth 32
def long (i : Nat) (n : DpNode) : BitVec 32 := .ofNat 32 (le n.buf i 8)

end DpNode

/-- The bytes from `p` on. -/
def HoldsBytes (mem : Buf) (p : Nat) (l : List Byte) : Prop := ∀ i < l.length, mem (p + i) = l.getD i 0

/-- The path with its end node. -/
def pathBytes (nodes : List DpNode) : List Byte :=
  nodes.flatMap DpNode.bytes ++ [0x7f, 0xff, 4, 0]

/-- The last value that an element gives, or `d`. -/
def lastOr {α β : Type} (f : α → Option β) (xs : List α) (d : β) : β :=
  (xs.filterMap f).getLast?.getD d

/-- What the nodes of a path say. -/
def pathDisk (nodes : List DpNode) : BootDisk where
  kind := lastOr DpNode.kind nodes 0
  addr :=
    if ∃ n ∈ nodes, n.isPci then
      lastOr (DpNode.field DpNode.isAcpi DpNode.uid) nodes 0 <<< 16 |||
        lastOr (DpNode.field DpNode.isPci (DpNode.byte 5)) nodes 0 <<< 8 |||
        lastOr (DpNode.field DpNode.isPci (DpNode.byte 4)) nodes 0
    else 0xFFFFFFFF
  plba := lastOr (DpNode.field DpNode.isHardDrive (DpNode.long 8)) nodes 0
  psz := lastOr (DpNode.field DpNode.isHardDrive (DpNode.long 16)) nodes 0
  ach := lastOr (DpNode.field DpNode.isAtapi (DpNode.byte 4)) nodes 0
  adv := lastOr (DpNode.field DpNode.isAtapi (DpNode.byte 5)) nodes 0

/-- The nodes with the places where they begin. -/
def placed : Nat → List DpNode → List (Nat × DpNode)
  | _, [] => []
  | p, n :: nodes => (p, n) :: placed (p + n.length) nodes

/-- The number that the code takes for the bus: it lies 8 bytes behind the beginning of the last
Hardware/PCCARD node. -/
def pccardWord (mem : Buf) (nodes : List DpNode) : BitVec 32 :=
  lastOr (fun x : Nat × DpNode =>
    if x.2.isPccard then some (.ofNat 32 (le mem (x.1 + 8) 4)) else none) (placed 0 nodes) 0

/-- There is no PCI node, or the number taken for the bus agrees with that of the last ACPI node in
the bits that an address holds. -/
def BusAgrees (mem : Buf) (nodes : List DpNode) : Prop :=
  (¬ ∃ n ∈ nodes, n.isPci) ∨ (pccardWord mem nodes).setWidth 16 =
    (lastOr (DpNode.field DpNode.isAcpi DpNode.uid) nodes 0).setWidth 16

/-- The walk comes to at most 64 nodes and makes its result of them. -/
def DpStops (mem : Buf) : Prop :=
  (dpVisits mem 64 0).length ≤ 64 ∧
    dpLoop mem 64 0 .start = (dpVisits mem 64 0).foldl (dpNode mem) .start

/-! ### The last of a list -/

section LastOr

variable {α β σ : Type} {f : α → Option β}

theorem lastOr_cons (x : α) (xs : List α) (d : β) :
    lastOr f (x :: xs) d = lastOr f xs ((f x).getD d) := by
  unfold lastOr
  rw [List.filterMap_cons]
  cases f x with
  | none => rfl
  | some b =>
    dsimp only
    rw [List.getLast?_cons]
    rfl

theorem lastOr_map {γ : Type} (g : γ → α) (xs : List γ) (d : β) :
    lastOr f (xs.map g) d = lastOr (f ∘ g) xs d := by
  unfold lastOr
  rw [List.filterMap_map]

/-- A part of the state that each element sets or leaves alone is the last that was set. -/
theorem foldl_lastOr {step : σ → α → σ} {part : σ → β} {xs : List α} {s : σ}
    (h : ∀ x ∈ xs, ∀ s, part (step s x) = (f x).getD (part s)) :
    part (xs.foldl step s) = lastOr f xs (part s) := by
  induction xs generalizing s with
  | nil => rfl
  | cons x xs ih =>
    rw [List.foldl_cons, ih fun y hy => h y (List.mem_cons_of_mem x hy), lastOr_cons,
      h x List.mem_cons_self]

end LastOr

/-! ### The nodes in memory -/

section Walk

variable {mem : Buf} {p : Nat}

theorem holdsBytes_append {a b : List Byte} :
    HoldsBytes mem p (a ++ b) ↔ HoldsBytes mem p a ∧ HoldsBytes mem (p + a.length) b := by
  unfold HoldsBytes
  rw [List.length_append]
  constructor
  · intro h
    refine ⟨fun i hi => ?_, fun i hi => ?_⟩
    · rw [h i (by omega), List.getD_append _ _ _ _ hi]
    · rw [Nat.add_assoc, h (a.length + i) (by omega), List.getD_append_right _ _ _ _ (by omega),
        Nat.add_sub_cancel_left]
  · rintro ⟨ha, hb⟩ i hi
    by_cases hlt : i < a.length
    · rw [ha i hlt, List.getD_append _ _ _ _ hlt]
    · have := hb (i - a.length) (by omega)
      rw [Nat.add_assoc, Nat.add_sub_cancel' (Nat.not_lt.mp hlt)] at this
      rw [this, List.getD_append_right _ _ _ _ (Nat.not_lt.mp hlt)]

theorem DpNode.bytes_length (n : DpNode) : n.bytes.length = n.length := by
  unfold bytes length
  rw [List.length_append]
  rfl

/-- The node begins at `p`. -/
structure NodeAt (mem : Buf) (p : Nat) (n : DpNode) : Prop where
  type : mem p = n.type
  sub : mem (p + 1) = n.sub
  length : le mem (p + 2) 2 = n.length
  buf : ∀ i < n.length, mem (p + i) = n.buf i

theorem NodeAt.of_holdsBytes {n : DpNode} (h : HoldsBytes mem p n.bytes) : NodeAt mem p n := by
  have hlen := n.bytes_length
  have hfits := n.fits
  have hmin : 4 ≤ n.length := Nat.le_add_right 4 _
  have hlt : n.length < 2 ^ 16 := hfits
  have hbuf : ∀ i < n.length, mem (p + i) = n.buf i := fun i hi => h i (by omega)
  refine ⟨hbuf 0 (by omega), hbuf 1 (by omega), ?_, hbuf⟩
  have h2 : mem (p + 2) = .ofNat 8 n.length := hbuf 2 (by omega)
  have h3 : mem (p + 2 + 1) = .ofNat 8 (n.length / 256) := hbuf 3 (by omega)
  rw [le, le, le, h2, h3, BitVec.toNat_ofNat, BitVec.toNat_ofNat]
  omega

theorem NodeAt.le_buf {n : DpNode} (h : NodeAt mem p n) {off k : Nat} (hin : off + k ≤ n.length) :
    le mem (p + off) k = le n.buf off k := by
  rw [← le_from]
  exact le_congr fun i _ h1 => h.buf i (by omega)

theorem placed_at {nodes : List DpNode} (h : HoldsBytes mem p (pathBytes nodes)) :
    ∀ x ∈ placed p nodes, NodeAt mem x.1 x.2 := by
  induction nodes generalizing p with
  | nil =>
    intro x hx
    cases hx
  | cons n nodes ih =>
    unfold pathBytes at h
    rw [List.flatMap_cons, List.append_assoc, holdsBytes_append, n.bytes_length] at h
    intro x hx
    rcases List.mem_cons.mp hx with rfl | hx
    · exact .of_holdsBytes h.1
    · exact ih h.2 x hx

theorem placed_nodes (p : Nat) (nodes : List DpNode) : (placed p nodes).map Prod.snd = nodes := by
  induction nodes generalizing p with
  | nil => rfl
  | cons n nodes ih =>
    rw [placed, List.map_cons, ih]

theorem dpVisits_eq {nodes : List DpNode} {k : Nat} (h : HoldsBytes mem p (pathBytes nodes))
    (hlen : nodes.length ≤ k) : dpVisits mem k p = (placed p nodes).map Prod.fst := by
  induction nodes generalizing p k with
  | nil =>
    have hend : mem p = 0x7f#8 := h 0 (by decide)
    cases k with
    | zero => rfl
    | succ k => exact if_pos (.inr hend)
  | cons n nodes ih =>
    have hat : NodeAt mem p n := placed_at h (p, n) List.mem_cons_self
    unfold pathBytes at h
    rw [List.flatMap_cons, List.append_assoc, holdsBytes_append, n.bytes_length] at h
    rw [List.length_cons] at hlen
    cases k with
    | zero => omega
    | succ k =>
      have hgo : ¬ (n.length = 0 ∨ mem p = 0x7f#8) := by
        rw [hat.type]
        exact not_or.mpr ⟨by unfold DpNode.length; omega, n.noEnd⟩
      rw [dpVisits]
      rw [hat.length, if_neg hgo, ih h.2 (by omega)]
      rfl

theorem dpVisits_length (mem : Buf) (n p : Nat) : (dpVisits mem n p).length ≤ n := by
  induction n generalizing p with
  | zero => exact Nat.le_refl 0
  | succ n ih =>
    rw [dpVisits]
    split
    · exact Nat.zero_le _
    · exact Nat.succ_le_succ (ih _)

theorem dpLoop_eq (mem : Buf) (n p : Nat) (s : DpState) :
    dpLoop mem n p s = (dpVisits mem n p).foldl (dpNode mem) s := by
  induction n generalizing p s with
  | zero => rfl
  | succ n ih =>
    rw [dpLoop, dpVisits]
    by_cases hend : le mem (p + 2) 2 = 0 ∨ mem p = 0x7f#8
    · rw [if_pos hend, if_pos hend]
      rfl
    · rw [if_neg hend, if_neg hend, List.foldl_cons]
      exact ih _ _

theorem dp_stops (mem : Buf) : DpStops mem := ⟨dpVisits_length mem 64 0, dpLoop_eq mem 64 0 .start⟩

/-- What a node in memory changes: each variable is set from the node's own field or stays, but the
bus is taken from a Hardware/PCCARD node. -/
structure NodeSays (mem : Buf) (p : Nat) (n : DpNode) (s s' : DpState) : Prop where
  kind : s'.kind = n.kind.getD s.kind
  bus : s'.bus = (if n.isPccard then some (BitVec.ofNat 32 (le mem (p + 8) 4)) else none).getD s.bus
  dev : s'.dev = (n.field DpNode.isPci (DpNode.byte 5)).getD s.dev
  func : s'.func = (n.field DpNode.isPci (DpNode.byte 4)).getD s.func
  ach : s'.ach = (n.field DpNode.isAtapi (DpNode.byte 4)).getD s.ach
  adv : s'.adv = (n.field DpNode.isAtapi (DpNode.byte 5)).getD s.adv
  plba : s'.plba = (n.field DpNode.isHardDrive (DpNode.long 8)).getD s.plba
  psz : s'.psz = (n.field DpNode.isHardDrive (DpNode.long 16)).getD s.psz
  seenPci : s'.seenPci = (n.field DpNode.isPci fun _ => true).getD s.seenPci

theorem DpNode.kind_getD {n : DpNode} (ht : n.type = 0x03#8) (kind : BitVec 32) :
    n.kind.getD kind = dpKind n.sub kind := by
  unfold DpNode.kind dpKind
  rw [if_pos ht]
  split <;> rfl

theorem NodeAt.byte {n : DpNode} (h : NodeAt mem p n) {i : Nat} (hi : i < n.length) :
    (mem (p + i)).setWidth 32 = n.byte i := by rw [h.buf i hi, DpNode.byte]

theorem NodeAt.long {n : DpNode} (h : NodeAt mem p n) {i : Nat} (hi : i + 8 ≤ n.length) :
    .ofNat 32 (le mem (p + i) 8) = n.long i := by rw [h.le_buf hi, DpNode.long]

theorem NodeAt.changes {n : DpNode} (h : NodeAt mem p n) (s : DpState) :
    NodeSays mem p n s (dpNode mem s p) := by
  have hcovers := n.covers
  have hlen : n.length = 4 + n.data.length := rfl
  unfold dpNode
  dsimp only
  rw [h.type, h.sub]
  by_cases hcard : n.type = 0x01#8 ∧ n.sub = 0x02#8
  · rw [if_pos hcard]
    constructor <;> simp [DpNode.kind, DpNode.field, DpNode.isPccard, DpNode.isPci, DpNode.isAtapi,
      DpNode.isHardDrive, hcard]
  rw [if_neg hcard]
  by_cases hpci : n.type = 0x01#8 ∧ n.sub = 0x01#8
  · rw [hpci.1, hpci.2] at hcovers
    change 2 ≤ n.data.length at hcovers
    rw [if_pos hpci, h.byte (by omega), h.byte (by omega)]
    constructor <;> simp [DpNode.kind, DpNode.field, DpNode.isPccard, DpNode.isPci, DpNode.isAtapi,
      DpNode.isHardDrive, hpci]
  rw [if_neg hpci]
  by_cases hmsg : n.type = 0x03#8
  · rw [if_pos hmsg, ← n.kind_getD hmsg]
    by_cases hatapi : n.sub = 0x01#8
    · rw [hmsg, hatapi] at hcovers
      change 4 ≤ n.data.length at hcovers
      rw [if_pos hatapi, h.byte (by omega), h.byte (by omega)]
      constructor <;> simp [DpNode.field, DpNode.isPccard, DpNode.isPci, DpNode.isAtapi,
        DpNode.isHardDrive, hmsg, hatapi]
    · rw [if_neg hatapi]
      constructor <;> simp [DpNode.field, DpNode.isPccard, DpNode.isPci, DpNode.isAtapi,
        DpNode.isHardDrive, hmsg, hatapi]
  rw [if_neg hmsg]
  by_cases hdrive : n.type = 0x04#8 ∧ n.sub = 0x01#8
  · rw [hdrive.1, hdrive.2] at hcovers
    change 20 ≤ n.data.length at hcovers
    rw [if_pos hdrive, h.long (by omega), h.long (by omega)]
    constructor <;> simp [DpNode.kind, DpNode.field, DpNode.isPccard, DpNode.isPci, DpNode.isAtapi,
      DpNode.isHardDrive, hdrive]
  · rw [if_neg hdrive]
    constructor <;> simp [DpNode.kind, DpNode.field, DpNode.isPccard, DpNode.isPci, DpNode.isAtapi,
      DpNode.isHardDrive, hcard, hpci, hmsg, hdrive]

theorem dpLoop_part {β : Type} {part : DpState → β} {f : DpNode → Option β} {nodes : List DpNode}
    (hpart : ∀ p n s s', NodeSays mem p n s s' → part s' = (f n).getD (part s))
    (h : HoldsBytes mem 0 (pathBytes nodes)) (hlen : nodes.length ≤ 64) :
    part (dpLoop mem 64 0 .start) = lastOr f nodes (part .start) := by
  rw [dpLoop_eq, dpVisits_eq h hlen, List.foldl_map]
  have hlast := @foldl_lastOr (Nat × DpNode) β DpState (f ∘ Prod.snd)
    (fun s x => dpNode mem s x.1) part (placed 0 nodes) .start
    fun x hx s => hpart x.1 x.2 s _ ((placed_at h x hx).changes s)
  rw [hlast, ← lastOr_map, placed_nodes]

theorem dpLoop_bus {nodes : List DpNode} (h : HoldsBytes mem 0 (pathBytes nodes))
    (hlen : nodes.length ≤ 64) : (dpLoop mem 64 0 .start).bus = pccardWord mem nodes := by
  rw [dpLoop_eq, dpVisits_eq h hlen, List.foldl_map]
  exact foldl_lastOr fun x hx s => ((placed_at h x hx).changes s).bus

end Walk

/-! ### The address -/

theorem lastOr_of_forall {α β : Type} {f : α → Option β} {P : β → Prop} {xs : List α} {d : β}
    (hd : P d) (h : ∀ x b, f x = some b → P b) : P (lastOr f xs d) := by
  induction xs generalizing d with
  | nil => exact hd
  | cons x xs ih =>
    rw [lastOr_cons]
    refine ih ?_
    cases hx : f x with
    | none => exact hd
    | some b => exact h x b hx

theorem lastOr_seen {is : DpNode → Prop} [DecidablePred is] (nodes : List DpNode) (d : Bool) :
    lastOr (DpNode.field is fun _ => true) nodes d = true ↔ d = true ∨ ∃ n ∈ nodes, is n := by
  induction nodes generalizing d with
  | nil => exact ⟨.inl, fun h => h.elim id fun ⟨_, hn, _⟩ => by cases hn⟩
  | cons n nodes ih =>
    rw [lastOr_cons, ih, List.exists_mem_cons_iff]
    unfold DpNode.field
    by_cases hn : is n
    · rw [if_pos hn]
      exact iff_of_true (.inl rfl) (.inr (.inl hn))
    · rw [if_neg hn]
      exact or_congr_right ⟨.inr, fun h => h.resolve_left hn⟩

/-- A byte's bits end at the eighth. -/
theorem byte_high (is : DpNode → Prop) [DecidablePred is] (k : Nat) (nodes : List DpNode) {i : Nat}
    (hi : 8 ≤ i) : (lastOr (DpNode.field is (DpNode.byte k)) nodes 0).getLsbD i = false := by
  refine lastOr_of_forall (P := fun b : BitVec 32 => b.getLsbD i = false) BitVec.getLsbD_zero
    fun n b hb => ?_
  unfold DpNode.field at hb
  split at hb
  · obtain rfl := Option.some.inj hb
    rw [DpNode.byte, BitVec.getLsbD_setWidth, BitVec.getLsbD_of_ge _ _ hi, Bool.and_false]
  · cases hb

/-- An address holds the low half of the bus. -/
theorem addr_eq_iff {b b' d f : BitVec 32} (hd : ∀ i, 8 ≤ i → d.getLsbD i = false)
    (hf : ∀ i, 8 ≤ i → f.getLsbD i = false) :
    b <<< 16 ||| d <<< 8 ||| f = b' <<< 16 ||| d <<< 8 ||| f ↔ b.setWidth 16 = b'.setWidth 16 := by
  constructor
  · intro h
    refine BitVec.eq_of_getLsbD_eq fun i hi => ?_
    have hbit := congrArg (BitVec.getLsbD · (i + 16)) h
    simp only [BitVec.getLsbD_or, BitVec.getLsbD_shiftLeft, hd (i + 16 - 8) (by omega),
      hf (i + 16) (by omega), show i + 16 < 32 by omega, show ¬ i + 16 < 16 by omega,
      Nat.add_sub_cancel, decide_true, decide_false, Bool.not_false, Bool.true_and, Bool.and_false,
      Bool.or_false] at hbit
    rw [BitVec.getLsbD_setWidth, BitVec.getLsbD_setWidth, hbit]
  · intro h
    refine BitVec.eq_of_getLsbD_eq fun i hi => ?_
    have hbit := congrArg (BitVec.getLsbD · (i - 16)) h
    by_cases hlow : i < 16
    · simp [hlow]
    · simp only [BitVec.getLsbD_setWidth, show i - 16 < 16 by omega, decide_true,
        Bool.true_and] at hbit
      simp [hbit, hlow]

section Result

variable {mem : Buf} {nodes : List DpNode} (h : HoldsBytes mem 0 (pathBytes nodes))
  (hlen : nodes.length ≤ 64)
include h hlen

theorem dpAddr_iff :
    dpAddr (dpLoop mem 64 0 .start) = (pathDisk nodes).addr ↔ BusAgrees mem nodes := by
  have hseen : (dpLoop mem 64 0 .start).seenPci = true ↔ ∃ n ∈ nodes, n.isPci := by
    rw [dpLoop_part (fun _ _ _ _ hs => hs.seenPci) h hlen, lastOr_seen]
    exact or_iff_right Bool.false_ne_true
  unfold dpAddr pathDisk BusAgrees
  dsimp only
  by_cases hpci : ∃ n ∈ nodes, n.isPci
  · have hor : ∀ {q : Prop}, (¬ ∃ n ∈ nodes, n.isPci) ∨ q ↔ q := or_iff_right (not_not.mpr hpci)
    rw [if_pos (hseen.mpr hpci), if_pos hpci, hor, dpLoop_bus h hlen,
      dpLoop_part (fun _ _ _ _ hs => hs.dev) h hlen,
      dpLoop_part (fun _ _ _ _ hs => hs.func) h hlen]
    exact addr_eq_iff (fun i hi => byte_high _ 5 nodes hi) fun i hi => byte_high _ 4 nodes hi
  · rw [if_neg (mt hseen.mp hpci), if_neg hpci]
    exact iff_of_true rfl (.inl hpci)

/-- All but the address is right on every path. -/
theorem parseDp_eq_iff : parseDp mem = pathDisk nodes ↔ BusAgrees mem nodes := by
  rw [← dpAddr_iff h hlen]
  constructor
  · intro heq
    exact congrArg BootDisk.addr heq
  · intro haddr
    ext1
    · exact dpLoop_part (fun _ _ _ _ hs => hs.kind) h hlen
    · exact haddr
    · exact dpLoop_part (fun _ _ _ _ hs => hs.plba) h hlen
    · exact dpLoop_part (fun _ _ _ _ hs => hs.psz) h hlen
    · exact dpLoop_part (fun _ _ _ _ hs => hs.ach) h hlen
    · exact dpLoop_part (fun _ _ _ _ hs => hs.adv) h hlen

end Result

/-- The walk over any bytes stops, and over a path its result is the one that the path gives
exactly if the bus agrees. -/
theorem parse_dp_right_iff {mem : Buf} {nodes : List DpNode} (h : HoldsBytes mem 0 (pathBytes nodes))
    (hlen : nodes.length ≤ 64) : (∀ bytes, DpStops bytes) ∧
      (parseDp mem = pathDisk nodes ↔ BusAgrees mem nodes) :=
  ⟨dp_stops, parseDp_eq_iff h hlen⟩

/-- The root of PCI bus `uid`. -/
def pciRoot (uid : Byte) : DpNode where
  type := 0x02
  sub := 0x01
  data := [0xD0, 0x41, 0x03, 0x0A, uid, 0, 0, 0]
  noEnd := by decide
  fits := show 12 < 2 ^ 16 by decide
  covers := Nat.le_refl 8

/-- Device 2, function 1. -/
def pciDisk : DpNode where
  type := 0x01
  sub := 0x01
  data := [1, 2]
  noEnd := by decide
  fits := by decide
  covers := by decide

/-- The path's bytes, and zeros behind them. -/
def pathMem (nodes : List DpNode) : Buf := fun i => (pathBytes nodes).getD i 0

theorem pathMem_holds (nodes : List DpNode) : HoldsBytes (pathMem nodes) 0 (pathBytes nodes) :=
  fun i _ => by rw [Nat.zero_add, pathMem]

/-- On bus 0 the address is right. -/
theorem parse_dp_right_bus0 :
    parseDp (pathMem [pciRoot 0, pciDisk]) = pathDisk [pciRoot 0, pciDisk] :=
  (parse_dp_right_iff (pathMem_holds _) (by decide)).2.mpr (.inr (by decide))

/-- On bus 1 it is the address of bus 0. -/
theorem parse_dp_loses_bus :
    (parseDp (pathMem [pciRoot 1, pciDisk])).addr = 0x00000201 ∧
      (pathDisk [pciRoot 1, pciDisk]).addr = 0x00010201 ∧
      parseDp (pathMem [pciRoot 1, pciDisk]) ≠ pathDisk [pciRoot 1, pciDisk] := by
  have hcode : (parseDp (pathMem [pciRoot 1, pciDisk])).addr = 0x00000201 := by decide
  have hpath : (pathDisk [pciRoot 1, pciDisk]).addr = 0x00010201 := by decide
  refine ⟨hcode, hpath, fun heq => ?_⟩
  rw [heq, hpath] at hcode
  exact absurd hcode (by decide)

end WinDOS
