import WinDOS.Lib.Blob
import WinDOS.Boot.FindKern

/-!
# The image builder (`tools/mkmemdisk.py`)

`build` makes `memdisk.img` from the bytes of the kernel; `none` is an exception (a number that
its field cannot hold, an index outside a byte array). The names are ASCII.
-/

set_option autoImplicit false

namespace WinDOS

open Bytes

namespace Memdisk

def CLUSTER : Nat := 512
def FAT_OFF : Nat := 8
def FAT_LEN : Nat := 8
def HEAP : Nat := 16
def PART_LBA : Nat := 128
def LIMIT : Nat := 0x40000

def fileEntry (buf : Blob) (off dataLen alloc firstCluster : Nat) : Option (Nat × Blob) := do
  let buf ← buf.put off 0x81
  let buf ← buf.pack 8 (off + 16) dataLen
  let buf ← buf.pack 8 (off + 24) alloc
  let s := off + 32
  let buf ← buf.put s 0x85
  let buf ← buf.pack 8 (s + 8) dataLen
  let buf ← buf.pack 4 (s + 16) firstCluster
  let buf ← buf.pack 8 (s + 24) dataLen
  return (off + 32, buf)

/-- The UTF-16 units of a name. -/
def nameUnits (buf : Blob) (off : Nat) : List Char → Option Blob
  | [] => some buf
  | c :: cs => do
    let buf ← buf.pack 2 off c.toNat
    nameUnits buf (off + 2) cs

def nameEntry (buf : Blob) (off : Nat) (name : List Char) : Option (Nat × Blob) := do
  let n := name.length
  let buf ← buf.put off (0xC0#8 ||| (BitVec.ofNat 8 n &&& 0x3F#8))
  let buf ← buf.pack 1 (off + 1) n
  let buf ← nameUnits buf (off + 2) (name.take 15)
  return (off + 32, buf)

def helloName : List Char := ['H', 'E', 'L', 'L', 'O', '.', 'T', 'X', 'T']
def kernelName : List Char := ['K', 'E', 'R', 'N', 'E', 'L', '.', 'B', 'I', 'N']

/-- `b"HELLO FROM EXFAT"`. -/
def hello : List Byte :=
  [0x48, 0x45, 0x4c, 0x4c, 0x4f, 0x20, 0x46, 0x52, 0x4f, 0x4d, 0x20, 0x45, 0x58, 0x46, 0x41, 0x54]

/-- `"WINDOX".encode("utf-16le")`. -/
def lbl : List Byte := [0x57, 0, 0x49, 0, 0x4e, 0, 0x44, 0, 0x4f, 0, 0x58, 0]

def bpb (clusterCount volSectors : Nat) : Option Blob := do
  let bpb := Blob.zeros 512
  let bpb ← bpb.paste 0 [0xeb, 0x76, 0x90]
  let bpb ← bpb.paste 3 [0x45, 0x58, 0x46, 0x41, 0x54, 0x20, 0x20, 0x20]
  let bpb ← bpb.pack 8 0x40 PART_LBA
  let bpb ← bpb.pack 8 0x48 volSectors
  let bpb ← bpb.pack 4 0x50 FAT_OFF
  let bpb ← bpb.pack 4 0x54 FAT_LEN
  let bpb ← bpb.pack 4 0x58 HEAP
  let bpb ← bpb.pack 4 0x5C clusterCount
  let bpb ← bpb.pack 4 0x60 2
  let bpb ← bpb.pack 8 0x64 0x12345678
  let bpb ← bpb.put 0x72 0
  let bpb ← bpb.put 0x73 1
  let bpb ← bpb.paste 0x88 lbl
  bpb.put 0xA2 0x01

/-- `fat[c // 8] |= 1 << (c % 8)` for the first `n` clusters. -/
def markUsed (fat : Blob) : Nat → Option Blob
  | 0 => some fat
  | c + 1 => do
    let fat ← markUsed fat c
    fat.put (c / 8) (fat.data (c / 8) ||| 1#8 <<< (c % 8))

def root (kernLen : Nat) : Option Blob := do
  let root := Blob.zeros CLUSTER
  let (off, root) ← fileEntry root 0x00 hello.length CLUSTER 3
  let (_, root) ← nameEntry root (off + 32) helloName
  let (off, root) ← fileEntry root 0x60 kernLen kernLen 4
  let (_, root) ← nameEntry root (off + 32) kernelName
  return root

/-- `while len(img) < size: img += b"\x00" * 512`. -/
def padTo (size : Nat) (img : Blob) : Blob :=
  if img.size < size then padTo size (img ++ Blob.zeros 512) else img
termination_by size - img.size
decreasing_by
  rw [Blob.size_append, Blob.size_zeros]
  omega

def mbr (sectors : Nat) : Option Blob := do
  let mbr := Blob.zeros 512
  let mbr ← mbr.put 0x1C2 0x07
  let mbr ← mbr.pack 4 0x1C6 PART_LBA
  let mbr ← mbr.pack 4 0x1CA sectors
  mbr.paste 0x1FE [0x55, 0xaa]

def build (kern : List Byte) : Option Blob := do
  let nKern := (kern.length + CLUSTER - 1) / CLUSTER
  let clusterCount := nKern + 4
  let volSectors := HEAP + clusterCount
  let bpb ← bpb clusterCount volSectors
  let img := bpb ++ Blob.zeros (FAT_OFF * 512 - bpb.size)
  let fat ← markUsed (Blob.zeros (FAT_LEN * 512)) (nKern + 4)
  let img := img ++ fat
  let img := img ++ Blob.zeros (HEAP * 512 - img.size)
  let root ← root kern.length
  let img := img ++ root ++ (Blob.ofList hello ++ Blob.zeros (CLUSTER - hello.length))
  let img := padTo (volSectors * 512) (img ++ Blob.ofList kern)
  let mbr ← mbr (img.size / 512)
  return mbr ++ Blob.zeros (PART_LBA * 512 - 512) ++ img

/-! ### The entries -/

theorem bind_some_iff {α β : Type} {x : Option α} {f : α → Option β} {r : β} :
    x >>= f = some r ↔ ∃ a, x = some a ∧ f a = some r := Option.bind_eq_some_iff

open Blob

/-- What a file entry and its stream entry hold. -/
structure FileAt (buf : Blob) (off dataLen firstCluster : Nat) : Prop where
  file : buf.data off = 0x81
  stream : buf.data (off + 32) = 0x85
  cluster : le buf.data (off + 48) 4 = firstCluster
  length : le buf.data (off + 56) 8 = dataLen

theorem FileAt.wrote {b b' : Blob} {off dl fc o len : Nat} (h : FileAt b off dl fc)
    (hw : Wrote b b' o len) (hout : o + len ≤ off ∨ off + 64 ≤ o) : FileAt b' off dl fc :=
  ⟨(hw.2 _ (by omega)).trans h.file, (hw.2 _ (by omega)).trans h.stream,
    (hw.le_eq (by omega)).trans h.cluster, (hw.le_eq (by omega)).trans h.length⟩

theorem fileEntry_spec {b b' : Blob} {off dl alloc fc o : Nat}
    (h : fileEntry b off dl alloc fc = some (o, b')) :
    o = off + 32 ∧ Wrote b b' off 64 ∧ FileAt b' off dl fc := by
  obtain ⟨b1, h1, h⟩ := bind_some_iff.mp h
  obtain ⟨b2, h2, h⟩ := bind_some_iff.mp h
  obtain ⟨b3, h3, h⟩ := bind_some_iff.mp h
  obtain ⟨b4, h4, h⟩ := bind_some_iff.mp h
  obtain ⟨b5, h5, h⟩ := bind_some_iff.mp h
  obtain ⟨b6, h6, h⟩ := bind_some_iff.mp h
  obtain ⟨b7, h7, h⟩ := bind_some_iff.mp h
  obtain ⟨rfl, rfl⟩ := Prod.mk.inj (Option.some.inj h)
  obtain ⟨w1, v1⟩ := put_eq_some h1
  obtain ⟨w2, -⟩ := pack_eq_some h2
  obtain ⟨w3, -⟩ := pack_eq_some h3
  obtain ⟨w4, v4⟩ := put_eq_some h4
  obtain ⟨w5, -⟩ := pack_eq_some h5
  obtain ⟨w6, v6⟩ := pack_eq_some h6
  obtain ⟨w7, v7⟩ := pack_eq_some h7
  refine ⟨rfl, ?_, ?_, ?_, ?_, ?_⟩
  · have hw : ∀ {b b' : Blob} {o n : Nat}, Wrote b b' o n → off ≤ o → o + n ≤ off + 64 →
        Wrote b b' off 64 := fun w hlo hhi => w.mono hlo hhi
    exact (hw w1 (by omega) (by omega)).trans <| (hw w2 (by omega) (by omega)).trans <|
      (hw w3 (by omega) (by omega)).trans <| (hw w4 (by omega) (by omega)).trans <|
      (hw w5 (by omega) (by omega)).trans <| (hw w6 (by omega) (by omega)).trans <|
      hw w7 (by omega) (by omega)
  · rw [w7.2 _ (by omega), w6.2 _ (by omega), w5.2 _ (by omega), w4.2 _ (by omega),
      w3.2 _ (by omega), w2.2 _ (by omega), v1]
  · rw [w7.2 _ (by omega), w6.2 _ (by omega), w5.2 _ (by omega), v4]
  · rw [w7.le_eq (by omega)]
    exact v6
  · exact v7

/-- The bytes of a name's units. -/
def utf16 (name : List Char) : List Byte :=
  name.flatMap fun c => [BitVec.ofNat 8 c.toNat, BitVec.ofNat 8 (c.toNat / 256)]

theorem le_two {buf : Buf} {off v : Nat} (h : le buf off 2 = v) :
    buf off = BitVec.ofNat 8 v ∧ buf (off + 1) = BitVec.ofNat 8 (v / 256) := by
  have h0 := (buf off).isLt
  have h1 := (buf (off + 1)).isLt
  rw [le, le, le] at h
  constructor
  · apply BitVec.eq_of_toNat_eq
    rw [BitVec.toNat_ofNat]
    omega
  · apply BitVec.eq_of_toNat_eq
    rw [BitVec.toNat_ofNat]
    omega

theorem nameUnits_spec {cs : List Char} {b b' : Blob} {off : Nat}
    (h : nameUnits b off cs = some b') :
    Wrote b b' off (2 * cs.length) ∧ standsAt b'.data off (utf16 cs) := by
  induction cs generalizing b off with
  | nil =>
    obtain rfl := Option.some.inj h
    exact ⟨Wrote.refl _ _ _, fun i hi => absurd hi (Nat.not_lt_zero i)⟩
  | cons c cs ih =>
    obtain ⟨b1, h1, h⟩ := bind_some_iff.mp h
    obtain ⟨w1, v1⟩ := pack_eq_some h1
    obtain ⟨w, hs⟩ := ih h
    rw [List.length_cons]
    refine ⟨(w1.mono (by omega) (by omega)).trans (w.mono (by omega) (by omega)), ?_⟩
    rw [← w.le_eq (by omega)] at v1
    obtain ⟨hlo, hhi⟩ := le_two v1
    exact standsAt_cons.mpr ⟨hlo, standsAt_cons.mpr ⟨hhi, hs⟩⟩

/-- What a name entry holds. -/
structure NameAt (buf : Blob) (off : Nat) (name : List Char) : Prop where
  type : buf.data off = 0xC0#8 ||| (BitVec.ofNat 8 name.length &&& 0x3F#8)
  length : (buf.data (off + 1)).toNat = name.length
  units : standsAt buf.data (off + 2) (utf16 (name.take 15))

theorem nameEntry_spec {b b' : Blob} {off o : Nat} {name : List Char}
    (h : nameEntry b off name = some (o, b')) : Wrote b b' off 32 ∧ NameAt b' off name := by
  obtain ⟨b1, h1, h⟩ := bind_some_iff.mp h
  obtain ⟨b2, h2, h⟩ := bind_some_iff.mp h
  obtain ⟨b3, h3, h⟩ := bind_some_iff.mp h
  obtain ⟨rfl, rfl⟩ := Prod.mk.inj (Option.some.inj h)
  obtain ⟨w1, v1⟩ := put_eq_some h1
  obtain ⟨w2, v2⟩ := pack_eq_some h2
  obtain ⟨w3, v3⟩ := nameUnits_spec h3
  have hlen : (name.take 15).length ≤ 15 := List.length_take_le _ _
  refine ⟨?_, ?_, ?_, v3⟩
  · exact (w1.mono (by omega) (by omega)).trans <| (w2.mono (by omega) (by omega)).trans
      (w3.mono (by omega) (by omega))
  · rw [w3.2 _ (by omega), w2.2 _ (by omega), v1]
  · rw [w3.2 _ (by omega)]
    exact v2

theorem kernelName_units : utf16 (kernelName.take 15) = want := by decide

/-- The root directory: `HELLO.TXT`, then the kernel at 0x60. -/
structure RootAt (root : Blob) (kernLen : Nat) : Prop where
  size : root.size = 512
  helloFile : root.data 0 = 0x81
  helloStream : root.data 32 = 0x85
  helloName : root.data 64 = 0xC9
  helloLength : root.data 65 = 9
  kern : IsKern root.data 0x60
  cluster : entryCluster root.data 0x60 = 4
  length : entryLength root.data 0x60 = kernLen

theorem root_spec {kernLen : Nat} {r : Blob} (h : root kernLen = some r) : RootAt r kernLen := by
  obtain ⟨⟨o1, r1⟩, h1, h⟩ := bind_some_iff.mp h
  obtain ⟨⟨o2, r2⟩, h2, h⟩ := bind_some_iff.mp h
  obtain ⟨⟨o3, r3⟩, h3, h⟩ := bind_some_iff.mp h
  obtain ⟨⟨o4, r4⟩, h4, h⟩ := bind_some_iff.mp h
  obtain rfl := Option.some.inj h
  obtain ⟨rfl, w1, f1⟩ := fileEntry_spec h1
  obtain ⟨w2, n2⟩ := nameEntry_spec h2
  obtain ⟨rfl, w3, f3⟩ := fileEntry_spec h3
  obtain ⟨w4, n4⟩ := nameEntry_spec h4
  have f1 := ((f1.wrote w2 (by omega)).wrote w3 (by omega)).wrote w4 (by omega)
  have f3 := f3.wrote w4 (by omega)
  have hname : ∀ i, i < 96 → r4.data i = r2.data i := fun i hi => by
    rw [w4.2 _ (by omega), w3.2 _ (by omega)]
  refine ⟨w4.1.trans (w3.1.trans (w2.1.trans w1.1)), f1.file, f1.stream, ?_, ?_, ?_, f3.cluster,
    f3.length⟩
  · exact (hname 64 (by omega)).trans n2.type
  · rw [hname 65 (by omega)]
    exact BitVec.eq_of_toNat_eq n2.length
  · refine ⟨?_, ?_, ?_, ?_, ?_⟩
    · rw [f3.file]
      decide
    · rw [f3.stream]
      decide
    · have ht : r4.data (0x60 + 64) = 0xCA := n4.type
      rw [ht]
      decide
    · exact BitVec.eq_of_toNat_eq n4.length
    · rw [← kernelName_units]
      exact n4.units

theorem padTo_has {size : Nat} {img c : Blob} {off : Nat} (h : img.Has c off) :
    (padTo size img).Has c off := by
  fun_induction padTo size img with
  | case1 img hlt ih => exact ih (h.append_left _)
  | case2 img hge => exact h

/-! ### The fields of the boot sectors -/

theorem bpb_spec {clusterCount volSectors : Nat} {b : Blob} (h : bpb clusterCount volSectors = some b) :
    b.size = 512 ∧ le b.data 0x58 4 = HEAP ∧ le b.data 0x60 4 = 2 ∧ b.data 0x72 = 0 := by
  obtain ⟨b1, h1, h⟩ := bind_some_iff.mp h
  obtain ⟨b2, h2, h⟩ := bind_some_iff.mp h
  obtain ⟨b3, h3, h⟩ := bind_some_iff.mp h
  obtain ⟨b4, h4, h⟩ := bind_some_iff.mp h
  obtain ⟨b5, h5, h⟩ := bind_some_iff.mp h
  obtain ⟨b6, h6, h⟩ := bind_some_iff.mp h
  obtain ⟨b7, h7, h⟩ := bind_some_iff.mp h
  obtain ⟨b8, h8, h⟩ := bind_some_iff.mp h
  obtain ⟨b9, h9, h⟩ := bind_some_iff.mp h
  obtain ⟨b10, h10, h⟩ := bind_some_iff.mp h
  obtain ⟨b11, h11, h⟩ := bind_some_iff.mp h
  obtain ⟨b12, h12, h⟩ := bind_some_iff.mp h
  obtain ⟨b13, h13, h⟩ := bind_some_iff.mp h
  obtain ⟨w7, v7⟩ := pack_eq_some h7
  obtain ⟨w8, -⟩ := pack_eq_some h8
  obtain ⟨w9, v9⟩ := pack_eq_some h9
  obtain ⟨w10, -⟩ := pack_eq_some h10
  obtain ⟨w11, v11⟩ := put_eq_some h11
  obtain ⟨w12, -⟩ := put_eq_some h12
  obtain ⟨w13, -⟩ := paste_eq_some h13
  obtain ⟨w14, -⟩ := put_eq_some h
  have hlbl : lbl.length = 12 := rfl
  refine ⟨?_, ?_, ?_, ?_⟩
  · rw [w14.1, w13.1, w12.1, w11.1, w10.1, w9.1, w8.1, w7.1, (pack_eq_some h6).1.1,
      (pack_eq_some h5).1.1, (pack_eq_some h4).1.1, (pack_eq_some h3).1.1,
      (paste_eq_some h2).1.1, (paste_eq_some h1).1.1]
    rfl
  · rw [w14.le_eq (by omega), w13.le_eq (by omega), w12.le_eq (by omega), w11.le_eq (by omega),
      w10.le_eq (by omega), w9.le_eq (by omega), w8.le_eq (by omega), v7]
  · rw [w14.le_eq (by omega), w13.le_eq (by omega), w12.le_eq (by omega), w11.le_eq (by omega),
      w10.le_eq (by omega), v9]
  · rw [w14.2 _ (by omega), w13.2 _ (by omega), w12.2 _ (by omega), v11]

theorem mbr_spec {sectors : Nat} {b : Blob} (h : mbr sectors = some b) :
    b.size = 512 ∧ le b.data 0x1C6 4 = PART_LBA ∧ b.data 0x1FE = 0x55 ∧ b.data 0x1FF = 0xaa := by
  obtain ⟨b1, h1, h⟩ := bind_some_iff.mp h
  obtain ⟨b2, h2, h⟩ := bind_some_iff.mp h
  obtain ⟨b3, h3, h⟩ := bind_some_iff.mp h
  obtain ⟨w1, -⟩ := put_eq_some h1
  obtain ⟨w2, v2⟩ := pack_eq_some h2
  obtain ⟨w3, -⟩ := pack_eq_some h3
  obtain ⟨w4, v4⟩ := paste_eq_some h
  refine ⟨w4.1.trans (w3.1.trans (w2.1.trans w1.1)), ?_, v4 0 (by decide), v4 1 (by decide)⟩
  rw [w4.le_eq (by omega), w3.le_eq (by omega), v2]

theorem markUsed_size {fat fat' : Blob} {n : Nat} (h : markUsed fat n = some fat') :
    fat'.size = fat.size := by
  induction n generalizing fat' with
  | zero => rw [Option.some.inj h]
  | succ n ih =>
    obtain ⟨fat1, h1, h⟩ := bind_some_iff.mp h
    rw [(put_eq_some h).1.1, ih h1]

/-! ### The image -/

/-- What the image holds, and where. -/
structure Layout (img : Blob) (kern : List Byte) : Prop where
  mbr : ∃ sectors b, mbr sectors = some b ∧ img.Has b 0
  bpb : ∃ clusterCount volSectors b, bpb clusterCount volSectors = some b ∧ img.Has b 65536
  root : ∃ b, root kern.length = some b ∧ img.Has b 73728
  kern : img.Has (Blob.ofList kern) 74752

theorem build_layout {kern : List Byte} {img : Blob} (h : build kern = some img) :
    Layout img kern := by
  obtain ⟨b, hb, h⟩ := bind_some_iff.mp h
  obtain ⟨fat, hfat, h⟩ := bind_some_iff.mp h
  obtain ⟨r, hr, h⟩ := bind_some_iff.mp h
  obtain ⟨m, hm, h⟩ := bind_some_iff.mp h
  obtain rfl := Option.some.inj h
  obtain ⟨hbsize, -⟩ := bpb_spec hb
  have hfatsize : fat.size = 4096 := markUsed_size hfat
  have hrsize := (root_spec hr).size
  obtain ⟨hmsize, -⟩ := mbr_spec hm
  clear h
  have hpre : (m ++ Blob.zeros (PART_LBA * 512 - 512)).size = 65536 := by
    rw [size_append, hmsize]
    rfl
  have hhello : (Blob.ofList hello ++ Blob.zeros (CLUSTER - hello.length)).size = 512 := rfl
  -- `head` is what stands before the root directory
  obtain ⟨head, hhead, hheadsize, hbhead⟩ : ∃ head,
      b ++ Blob.zeros (FAT_OFF * 512 - b.size) ++ fat ++ Blob.zeros (HEAP * 512 -
        (b ++ Blob.zeros (FAT_OFF * 512 - b.size) ++ fat).size) = head ∧
      head.size = 8192 ∧ head.Has b 0 := by
    refine ⟨_, rfl, ?_, (((has_self b).append_left _).append_left _).append_left _⟩
    simp only [size_append, size_zeros, hbsize, hfatsize]
    rfl
  rw [hhead] at hm ⊢
  have hvol : ∀ {c : Blob} {off : Nat},
      (head ++ r ++ (Blob.ofList hello ++ Blob.zeros (CLUSTER - hello.length)) ++
        Blob.ofList kern).Has c off →
      (m ++ Blob.zeros (PART_LBA * 512 - 512) ++ padTo ((HEAP + ((kern.length + CLUSTER - 1)
        / CLUSTER + 4)) * 512) (head ++ r ++ (Blob.ofList hello ++
          Blob.zeros (CLUSTER - hello.length)) ++ Blob.ofList kern)).Has c (65536 + off) := by
    intro c off hc
    rw [← hpre]
    exact (padTo_has hc).append_right _
  refine ⟨⟨_, m, hm, ((has_self m).append_left _).append_left _⟩, ⟨_, _, b, hb, ?_⟩,
    ⟨r, hr, ?_⟩, ?_⟩
  · exact hvol (((hbhead.append_left _).append_left _).append_left _)
  · have hroot := (has_self r).append_right head
    rw [hheadsize] at hroot
    exact hvol ((hroot.append_left _).append_left _)
  · have hkern := (has_self (Blob.ofList kern)).append_right
      (head ++ r ++ (Blob.ofList hello ++ Blob.zeros (CLUSTER - hello.length)))
    rw [size_append _ (Blob.ofList hello ++ _), size_append head, hheadsize, hrsize, hhello]
      at hkern
    exact hvol hkern

/-! ### The builder succeeds -/

theorem markUsed_some {fat : Blob} {n : Nat} (h : n ≤ 8 * fat.size) :
    ∃ fat', markUsed fat n = some fat' := by
  induction n with
  | zero => exact ⟨fat, rfl⟩
  | succ n ih =>
    obtain ⟨fat1, h1⟩ := ih (by omega)
    have hsize := markUsed_size h1
    exact ⟨_, bind_some_iff.mpr ⟨fat1, h1, if_pos (by omega)⟩⟩

theorem bpb_some {clusterCount volSectors : Nat} (hc : clusterCount < 256 ^ 4)
    (hv : volSectors < 256 ^ 8) : ∃ b, bpb clusterCount volSectors = some b ∧ b.size = 512 := by
  have hlbl : lbl.length = 12 := rfl
  have h0 : (Blob.zeros 512).size = 512 := rfl
  unfold bpb
  dsimp only
  refine paste_then (by rw [h0]; exact Nat.le_of_ble_eq_true rfl) fun b1 h1 => ?_
  refine paste_then (by rw [h1, h0]; exact Nat.le_of_ble_eq_true rfl) fun b2 h2 => ?_
  refine pack_then (by omega) (by decide) fun b3 h3 => ?_
  refine pack_then (by omega) hv fun b4 h4 => ?_
  refine pack_then (by omega) (by decide) fun b5 h5 => ?_
  refine pack_then (by omega) (by decide) fun b6 h6 => ?_
  refine pack_then (by omega) (by decide) fun b7 h7 => ?_
  refine pack_then (by omega) hc fun b8 h8 => ?_
  refine pack_then (by omega) (by decide) fun b9 h9 => ?_
  refine pack_then (by omega) (by decide) fun b10 h10 => ?_
  refine put_then (by omega) fun b11 h11 => ?_
  refine put_then (by omega) fun b12 h12 => ?_
  refine paste_then (by omega) fun b13 h13 => ?_
  exact ⟨_, if_pos (by omega), by dsimp only; omega⟩

theorem fileEntry_some {b : Blob} {off dl alloc fc : Nat} (hin : off + 64 ≤ b.size)
    (hdl : dl < 256 ^ 8) (halloc : alloc < 256 ^ 8) (hfc : fc < 256 ^ 4) :
    ∃ r, fileEntry b off dl alloc fc = some r ∧ r.1 = off + 32 ∧ r.2.size = b.size := by
  refine put_then (by omega) fun b1 h1 => ?_
  refine pack_then (by omega) hdl fun b2 h2 => ?_
  refine pack_then (by omega) halloc fun b3 h3 => ?_
  refine put_then (by omega) fun b4 h4 => ?_
  refine pack_then (by omega) hdl fun b5 h5 => ?_
  refine pack_then (by omega) hfc fun b6 h6 => ?_
  refine pack_then (by omega) hdl fun b7 h7 => ?_
  refine ⟨_, rfl, rfl, ?_⟩
  dsimp only
  omega

theorem nameUnits_some {cs : List Char} {b : Blob} {off : Nat} (hin : off + 2 * cs.length ≤ b.size)
    (hcs : ∀ c ∈ cs, c.toNat < 65536) :
    ∃ r, nameUnits b off cs = some r ∧ r.size = b.size := by
  induction cs generalizing b off with
  | nil => exact ⟨b, rfl, rfl⟩
  | cons c cs ih =>
    rw [List.length_cons] at hin
    have hc : c.toNat < 256 ^ 2 := hcs c List.mem_cons_self
    refine pack_then (by omega) hc fun b1 h1 => ?_
    obtain ⟨r, hr, hsize⟩ := @ih b1 (off + 2) (by omega)
      fun c' hc' => hcs c' (List.mem_cons_of_mem _ hc')
    exact ⟨r, hr, hsize.trans h1⟩

theorem nameEntry_some {b : Blob} {off : Nat} {name : List Char} (hin : off + 32 ≤ b.size)
    (hlen : name.length ≤ 15) (hcs : ∀ c ∈ name, c.toNat < 65536) :
    ∃ r, nameEntry b off name = some r ∧ r.2.size = b.size := by
  have htake : name.take 15 = name := List.take_of_length_le hlen
  unfold nameEntry
  rw [htake]
  refine put_then (by omega) fun b1 h1 => ?_
  refine pack_then (by omega) (Nat.lt_of_le_of_lt hlen (by decide)) fun b2 h2 => ?_
  obtain ⟨b3, h3, hsize⟩ := @nameUnits_some name b2 (off + 2) (by omega) hcs
  exact ⟨_, bind_some_iff.mpr ⟨b3, h3, rfl⟩, by dsimp only; omega⟩

theorem helloName_small : ∀ c ∈ helloName, c.toNat < 65536 := fun c hc => of_decide_eq_true
  (List.all_eq_true.mp (rfl : helloName.all (fun c => decide (c.toNat < 65536)) = true) c hc)

theorem kernelName_small : ∀ c ∈ kernelName, c.toNat < 65536 := fun c hc => of_decide_eq_true
  (List.all_eq_true.mp (rfl : kernelName.all (fun c => decide (c.toNat < 65536)) = true) c hc)

theorem root_some {kernLen : Nat} (h : kernLen < 256 ^ 8) : ∃ b, root kernLen = some b := by
  obtain ⟨⟨o1, b1⟩, h1, ho1, hs1⟩ := @fileEntry_some (Blob.zeros CLUSTER) 0x00 hello.length CLUSTER 3
    (by decide) (by decide) (by decide) (by decide)
  obtain rfl : o1 = 32 := ho1
  have hs0 : (Blob.zeros CLUSTER).size = 512 := rfl
  dsimp only at hs1
  obtain ⟨⟨o2, b2⟩, h2, hs2⟩ := @nameEntry_some b1 (32 + 32) helloName (by omega) (by decide)
    helloName_small
  dsimp only at hs2
  obtain ⟨⟨o3, b3⟩, h3, ho3, hs3⟩ := @fileEntry_some b2 0x60 kernLen kernLen 4 (by omega) h h
    (by decide)
  obtain rfl : o3 = 0x60 + 32 := ho3
  dsimp only at hs3
  obtain ⟨⟨o4, b4⟩, h4, hs4⟩ := @nameEntry_some b3 (0x60 + 32 + 32) kernelName (by omega) (by decide)
    kernelName_small
  exact ⟨b4, bind_some_iff.mpr ⟨_, h1, bind_some_iff.mpr ⟨_, h2, bind_some_iff.mpr ⟨_, h3,
    bind_some_iff.mpr ⟨_, h4, rfl⟩⟩⟩⟩⟩

theorem mbr_some {sectors : Nat} (h : sectors < 256 ^ 4) : ∃ b, mbr sectors = some b ∧ b.size = 512 := by
  have h0 : (Blob.zeros 512).size = 512 := rfl
  unfold mbr
  dsimp only
  refine put_then (by omega) fun b1 h1 => ?_
  refine pack_then (by omega) (by decide) fun b2 h2 => ?_
  refine pack_then (by omega) h fun b3 h3 => ?_
  exact ⟨_, if_pos (by rw [h3, h2, h1, h0]; exact Nat.le_of_ble_eq_true rfl), by dsimp only; omega⟩

theorem padTo_size {size : Nat} {img : Blob} :
    (padTo size img).size ≤ max img.size (size + 511) := by
  fun_induction padTo size img with
  | case1 img hlt ih =>
    rw [size_append, size_zeros] at ih
    omega
  | case2 img hge => exact Nat.le_max_left _ _

/-- A kernel whose clusters fit into the FAT has an image, 75 KiB longer than itself at most. -/
theorem build_some {kern : List Byte} (h : kern.length ≤ 32764 * 512) :
    ∃ img, build kern = some img ∧ img.size ≤ kern.length + 76800 := by
  have h4 : 256 ^ 4 = 4294967296 := by decide
  have h8 : 256 ^ 8 = 18446744073709551616 := by decide
  obtain ⟨b, hb, hbsize⟩ := @bpb_some ((kern.length + CLUSTER - 1) / CLUSTER + 4)
    (HEAP + ((kern.length + CLUSTER - 1) / CLUSTER + 4)) (by unfold CLUSTER; omega)
    (by unfold CLUSTER HEAP; omega)
  obtain ⟨fat, hfat⟩ := @markUsed_some (Blob.zeros (FAT_LEN * 512))
    ((kern.length + CLUSTER - 1) / CLUSTER + 4) (by
      unfold CLUSTER FAT_LEN
      rw [size_zeros]
      omega)
  obtain ⟨r, hr⟩ := @root_some kern.length (by omega)
  have hfatsize : fat.size = 4096 := markUsed_size hfat
  have hrsize := (root_spec hr).size
  have hkern : (Blob.ofList kern).size = kern.length := rfl
  have hhello : (Blob.ofList hello).size = 16 := rfl
  have hlen : hello.length = 16 := rfl
  have hpad := @padTo_size ((HEAP + ((kern.length + CLUSTER - 1) / CLUSTER + 4)) * 512)
    (b ++ Blob.zeros (FAT_OFF * 512 - b.size) ++ fat ++ Blob.zeros (HEAP * 512 -
      (b ++ Blob.zeros (FAT_OFF * 512 - b.size) ++ fat).size) ++ r ++
      (Blob.ofList hello ++ Blob.zeros (CLUSTER - hello.length)) ++ Blob.ofList kern)
  generalize hin : padTo _ _ = inner at hpad
  simp only [size_append, size_zeros, hbsize, hfatsize, hrsize, hkern, hhello, hlen, CLUSTER, HEAP,
    FAT_OFF] at hpad
  obtain ⟨m, hm, hmsize⟩ := @mbr_some (inner.size / 512) (by omega)
  have hsize : (m ++ Blob.zeros (PART_LBA * 512 - 512) ++ inner).size ≤ kern.length + 76800 := by
    simp only [size_append, size_zeros, hmsize, PART_LBA]
    omega
  subst hin
  exact ⟨_, bind_some_iff.mpr ⟨b, hb, bind_some_iff.mpr ⟨fat, hfat, bind_some_iff.mpr ⟨r, hr,
    bind_some_iff.mpr ⟨m, hm, rfl⟩⟩⟩⟩, hsize⟩

/-! ### The loader on the image -/

theorem IsKern.shift {buf buf' : Buf} {o o' : Nat} (h : ∀ i < 96, buf (o + i) = buf' (o' + i))
    (hk : IsKern buf' o') : IsKern buf o := by
  obtain ⟨ht, hst, hnt, hlen, hname⟩ := hk
  refine ⟨?_, ?_, ?_, ?_, fun i hi => ?_⟩
  · rw [show buf o = buf' o' from h 0 (by omega)]
    exact ht
  · rw [h 32 (by omega)]
    exact hst
  · rw [h 64 (by omega)]
    exact hnt
  · rw [h 65 (by omega)]
    exact hlen
  · have hi' : i < 20 := hi
    rw [Nat.add_assoc, h (66 + i) (by omega), ← Nat.add_assoc]
    exact hname i hi

section Find

variable {img : Blob} {kern : List Byte} {b : Slice}

/-- The slice holds the image. -/
def Loaded (b : Slice) (img : Blob) : Prop :=
  b.size = img.size ∧ ∀ i < img.size, b.data i = img.data i

theorem Loaded.le_eq (h : Loaded b img) {c : Blob} {off k n : Nat} (hc : img.Has c off)
    (hk : k + n ≤ c.size) : le b.data (off + k) n = le c.data k n := by
  have hin := hc.1
  refine (le_congr fun i h0 h1 => h.2 i (by omega)).trans (hc.le_eq hk)

theorem Loaded.data_eq (h : Loaded b img) {c : Blob} {off i : Nat} (hc : img.Has c off)
    (hi : i < c.size) : b.data (off + i) = c.data i := by
  have hin := hc.1
  exact (h.2 _ (by omega)).trans (hc.2 i hi)

/-- The loader reads the builder's fields: one volume at 65536, its root directory at 73728. -/
theorem Layout.fields (hl : Layout img kern) (h : Loaded b img) :
    (HasMbr b ∧ partOffset b + 512 ≤ b.size) ∧ partOffset b = 65536 ∧ heapField b = HEAP ∧
      rootField b = 2 ∧ spcShiftField b = 0 := by
  obtain ⟨_, m, hm, hmi⟩ := hl.mbr
  obtain ⟨_, _, p, hp, hpi⟩ := hl.bpb
  obtain ⟨hmsize, hlba, h55, haa⟩ := mbr_spec hm
  obtain ⟨hpsize, hheap, hroot, hshift⟩ := bpb_spec hp
  have hin := hpi.1
  have hsize := h.1
  have hpart : partOffset b = 65536 := by
    have := h.le_eq hmi (k := 0x1C6) (n := 4) (by omega)
    rw [Nat.zero_add, hlba] at this
    rw [partOffset, this]
    rfl
  have hsig : ∀ i, i < 512 → b.data i = m.data i := fun i hi => by
    have := h.data_eq hmi (i := i) (by omega)
    rwa [Nat.zero_add] at this
  refine ⟨⟨⟨by omega, ?_, ?_⟩, by omega⟩, hpart, ?_, ?_, ?_⟩
  · rw [hsig _ (by omega), h55]
  · rw [hsig _ (by omega), haa]
  · rw [heapField, hpart, h.le_eq hpi (by omega), hheap]
  · rw [rootField, hpart, h.le_eq hpi (by omega), hroot]
  · rw [spcShiftField, hpart, h.data_eq hpi (by omega), hshift]
    rfl

theorem Layout.firstKern (hl : Layout img kern) (h : Loaded b img) :
    FirstKern b 73728 73824 ∧ entryCluster b.data 73824 = 4 ∧
      entryLength b.data 73824 = kern.length := by
  obtain ⟨r, hr, hri⟩ := hl.root
  have hroot := root_spec hr
  have hsize := hroot.size
  have hin := hri.1
  have hkin := hl.kern.1
  have hdata : ∀ i, i < 512 → b.data (73728 + i) = r.data i := fun i hi =>
    h.data_eq hri (by omega)
  refine ⟨⟨?_, ?_, 3, rfl, fun j hj => ?_⟩, ?_, ?_⟩
  · rw [h.1]
    omega
  · exact IsKern.shift (fun i hi => (congrArg b.data (by omega)).trans (hdata (96 + i) (by omega)))
      hroot.kern
  · rcases (show j = 0 ∨ j = 1 ∨ j = 2 by omega) with rfl | rfl | rfl
    · have h0 : b.data 73728 = 0x81 := (hdata 0 (by omega)).trans hroot.helloFile
      have h65 : b.data (73728 + 65) = 9 := (hdata 65 (by omega)).trans hroot.helloLength
      refine ⟨?_, fun hk => ?_⟩
      · rw [Nat.mul_zero, Nat.add_zero, h0]
        decide
      · have hlen := hk.2.2.2.1
        rw [Nat.mul_zero, Nat.add_zero, h65] at hlen
        exact absurd hlen (by decide)
    · have h32 : b.data (73728 + 32 * 1) = 0x85 := (hdata 32 (by omega)).trans hroot.helloStream
      refine ⟨?_, fun hk => ?_⟩
      · rw [h32]
        decide
      · have ht := hk.1.2
        rw [h32] at ht
        exact absurd ht (by decide)
    · have h64 : b.data (73728 + 32 * 2) = 0xC9 := (hdata 64 (by omega)).trans hroot.helloName
      refine ⟨?_, fun hk => ?_⟩
      · rw [h64]
        decide
      · have ht := hk.1.2
        rw [h64] at ht
        exact absurd ht (by decide)
  · exact (h.le_eq hri (k := 144) (n := 4) (by omega)).trans hroot.cluster
  · exact (h.le_eq hri (k := 152) (n := 8) (by omega)).trans hroot.length

end Find

/-- On the image of any kernel the loader returns the place and the length of the kernel's bytes. -/
theorem find_build {kern : List Byte} {img : Blob} (hbuild : build kern = some img) {b : Slice}
    (hb : Loaded b img) : ∃ d, exfatFindKern b = .ok (b.base + d, kern.length) ∧
      d + kern.length ≤ b.size ∧ ∀ i < kern.length, b.data (d + i) = kern.getD i 0 := by
  have hl := build_layout hbuild
  obtain ⟨hpart, hpo, hheap, hroot, hshift⟩ := hl.fields hb
  obtain ⟨hfirst, hcluster, hlength⟩ := hl.firstKern hb
  have hkin : 74752 + kern.length ≤ img.size := hl.kern.1
  have hsize := hb.1
  have hfits := b.fits
  have hclus : clusterSize b = 512 := by
    have h0 : clusterSize b = 512 * 2 ^ 0 % 2 ^ 64 := by rw [clusterSize, hshift]
    exact h0.trans (by decide)
  have hrootAt : clusterAt b (rootField b) = 73728 := by
    rw [clusterAt, hpo, hheap, hclus, hroot]
    rfl
  refine ⟨74752, ?_, by omega, fun i hi => hb.data_eq hl.kern hi⟩
  rw [exfatFindKern_scan hpart (by omega) ⟨by omega, by omega⟩, hrootAt, scan_first hfirst,
    kernRegion, hcluster, hlength, hpo, hheap, hclus]
  exact bind_of_ok (clusterOffset_eq_ok_iff.mpr ⟨by omega, by decide, rfl⟩)
    (bind_of_ok (usize_ok (by unfold clusterPlace HEAP; omega)) rfl)

/-- The image of a kernel of one byte is small enough for the loader. -/
theorem find_build_one : ∃ img b d, build [0x90] = some img ∧ img.size ≤ LIMIT ∧ Loaded b img ∧
    exfatFindKern b = .ok (b.base + d, 1) ∧ b.data d = 0x90 := by
  obtain ⟨img, hbuild, hsize⟩ := @build_some [0x90] (by decide)
  rw [List.length_singleton] at hsize
  have hloaded : Loaded ⟨0x200000, img.size, img.data, by omega, by omega, by omega⟩ img :=
    ⟨rfl, fun _ _ => rfl⟩
  obtain ⟨d, hfind, -, hbytes⟩ := find_build hbuild hloaded
  exact ⟨img, _, d, hbuild, by unfold LIMIT; omega, hloaded, hfind, hbytes 0 (by decide)⟩

end Memdisk

end WinDOS
