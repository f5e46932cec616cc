import WinDOS.Fs.Block

/-!
# The exFAT driver (`fs/exfat.cpp`)

The globals of the driver, the disks below it, and its functions. Numbers of type `u32` are
natural numbers, wrapped where the source computes with them. A buffer is a total function,
so a read or write beyond the end of an array is one at an offset beyond its size.
-/

set_option autoImplicit false

namespace WinDOS

open Bytes

def EXFAT_EOD : Byte := 0x00
def EXFAT_BITMAP : Byte := 0x81
def EXFAT_FILE : Byte := 0x85
def EXFAT_STREAM : Byte := 0xC0
def EXFAT_NAME : Byte := 0xC1

/-- The end of a cluster chain. -/
def CHAIN_END : Nat := 0xFFFFFFFF

/-- The size of `g_tmp`. -/
def TMP_SIZE : Nat := 8192

/-- The fields of `EXFAT_BOOT` that `exfat_init` fills. -/
structure ExfatBoot where
  partitionOffset : Nat
  volumeLength : Nat
  fatOffset : Nat
  fatLength : Nat
  clusterHeapOffset : Nat
  clusterCount : Nat
  rootDirCluster : Nat
  serial : Nat
  bpsShift : Nat
  spcShift : Nat
  numFats : Nat
deriving DecidableEq, Repr

structure ExfatFileInfo where
  firstCluster : Nat
  dataLen : Nat
  /-- The characters before the terminating zeros. -/
  name : List Byte
  isDir : Bool
deriving DecidableEq, Repr

structure Exfat where
  disks : Disks
  boot : ExfatBoot
  ok : Bool
  bps : Nat
  spc : Nat
  bpc : Nat
  tmp : Buf
  partLba : Nat
  ch : Nat
  dv : Nat
  devForced : Bool
  /-- What local arrays hold before they are written. -/
  stack : Buf
  /-- The sectors asked of the block layer so far: first sector and count. -/
  log : List (Nat × Nat)
  /-- The device and the sector the geometry was copied from. -/
  bootFrom : Option (Dev × Nat)

namespace Exfat

/-- Disks that serve every command, none of them on NVMe, and no volume mounted. -/
def unmounted (data : Dev → Buf) : Exfat where
  disks :=
    { media := { data := data, faults := fun _ _ => none, issued := fun _ => 0 }
      ready := false
      queues := false }
  boot := ⟨0, 0, 0, 0, 0, 0, 0, 0, 0, 0, 0⟩
  ok := false
  bps := 0
  spc := 0
  bpc := 0
  tmp := fun _ => 0
  partLba := 0
  ch := 0
  dv := 0
  devForced := false
  stack := fun _ => 0
  log := []
  bootFrom := none

/-- The volume at sector 64 of such a disk, mounted: the FAT in its sector 1, eight clusters of
`2 ^ shift` sectors from its sector 10 on. -/
def mounted (shift root : Nat) (data : Buf) : Exfat :=
  { unmounted fun _ => data with
    boot := ⟨64, 10 + 8 * 2 ^ shift, 1, 1, 10, 8, root, 0, 9, shift, 1⟩
    ok := true
    bps := 512
    spc := 2 ^ shift
    bpc := 512 * 2 ^ shift
    partLba := 64
    bootFrom := some (.ata 0 0, 64) }

/-! ### The block layer -/

/-- The device that `sec_rd` and `sec_wr` address. -/
def dev (fs : Exfat) : Dev := if fs.disks.ready then .nvme else .ata fs.ch fs.dv

def secRd (fs : Exfat) (lba cnt : Nat) (buf : Buf) (off : Nat) : Bool × Buf × Exfat :=
  let fs := { fs with log := fs.log ++ [(lba, cnt)] }
  if fs.disks.ready then
    if cnt > 8 then (false, buf, fs)
    else
      match fs.disks.nvmeRead lba with
      | (none, d) => (false, buf, { fs with disks := d })
      | (some bounce, d) => (true, blit buf off bounce (cnt * 512), { fs with disks := d })
  else
    let (ok, buf, d) := fs.disks.ideReadSector fs.ch fs.dv lba cnt buf off
    (ok, buf, { fs with disks := d })

def secWr (fs : Exfat) (lba cnt : Nat) (buf : Buf) : Bool × Exfat :=
  let fs := { fs with log := fs.log ++ [(lba, cnt)] }
  if fs.disks.ready then
    if cnt > 8 then (false, fs)
    else
      let (ok, d) := fs.disks.nvmeWrite lba cnt buf
      (ok, { fs with disks := d })
  else
    let (ok, d) := fs.disks.ideWriteSector fs.ch fs.dv lba cnt buf
    (ok, { fs with disks := d })

def exfatSetDev (fs : Exfat) (ctrlKind ch dv partLba : Nat) : Exfat :=
  if ctrlKind = 1 ∧ ch ≤ 1 ∧ dv ≤ 1 ∧ partLba ≠ 0 then
    { fs with ch := ch, dv := dv, partLba := partLba, devForced := true }
  else fs

/-! ### Clusters -/

/-- `cluster - 2` is taken modulo 2^32, as on `u32`. -/
def clusterToLba (fs : Exfat) (cluster : Nat) : Nat :=
  wrap32 (fs.partLba + fs.boot.clusterHeapOffset + (cluster + (2 ^ 32 - 2)) * fs.spc)

/-- The loop of `read_cluster`: `n` sectors are left, `i` is the next one. -/
def readSectors (lba : Nat) : Exfat → Nat → Nat → Buf → Bool × Buf × Exfat
  | fs, 0, _, buf => (true, buf, fs)
  | fs, n + 1, i, buf =>
    match fs.secRd (wrap32 (lba + i)) 1 buf (i * fs.bps) with
    | (false, buf, fs) => (false, buf, fs)
    | (true, buf, fs) => readSectors lba fs n (i + 1) buf

def readCluster (fs : Exfat) (cluster : Nat) (buf : Buf) : Bool × Buf × Exfat :=
  readSectors (fs.clusterToLba cluster) fs fs.spc 0 buf

def fatLba (fs : Exfat) (cluster : Nat) : Nat :=
  wrap32 (fs.partLba + fs.boot.fatOffset + cluster * 4 / fs.bps)

def nextCluster (fs : Exfat) (cluster : Nat) : Nat × Exfat :=
  if fs.boot.fatLength > 0 then
    match fs.secRd (fs.fatLba cluster) 1 fs.stack 0 with
    | (false, _, fs) => (CHAIN_END, fs)
    | (true, buf, fs) => (le buf (cluster * 4 % fs.bps) 4, fs)
  else (wrap32 (cluster + 1), fs)

end Exfat

/-! ### Directories -/

/-- The character loop of a name entry at `p`: `n` characters are left, `i` is the next one. -/
def nameChars (cb : Buf) (p : Nat) : Nat → Nat → List Byte → List Byte
  | 0, _, name => name
  | n + 1, i, name =>
    if name.length < 255 then
      let lo := cb (p + 2 + i * 2)
      let hi := cb (p + 2 + i * 2 + 1)
      if lo = 0 ∧ hi = 0 then name else nameChars cb p n (i + 1) (name ++ [lo])
    else name

/-- The inner loop of `parse_dir_cluster`: the entries after a file entry, up to `bpc`. -/
def parseSet (cb : Buf) (bpc : Nat) : Nat → Nat → ExfatFileInfo → Nat × ExfatFileInfo
  | 0, p, fi => (p, fi)
  | fuel + 1, p, fi =>
    if p < bpc then
      if cb p = EXFAT_STREAM then
        parseSet cb bpc fuel (p + 32)
          { fi with firstCluster := le cb (p + 20) 4, dataLen := le cb (p + 24) 8 }
      else if cb p = EXFAT_NAME then
        parseSet cb bpc fuel (p + 32) { fi with name := nameChars cb p 15 0 fi.name }
      else (p, fi)
    else (p, fi)

def newFileInfo (cb : Buf) (off : Nat) : ExfatFileInfo where
  firstCluster := 0
  dataLen := 0
  name := []
  isDir := cb (off + 2) &&& 0x10 ≠ 0

/-- The outer loop. Every round moves `off` forward, so `bpc` rounds are enough. -/
def parseEntries (cb : Buf) (bpc max : Nat) : Nat → Nat → List ExfatFileInfo → List ExfatFileInfo
  | 0, _, out => out
  | fuel + 1, off, out =>
    if off < bpc ∧ out.length < max then
      if cb off = EXFAT_EOD then out
      else if cb off = EXFAT_FILE then
        let (p, fi) := parseSet cb bpc bpc (off + 32) (newFileInfo cb off)
        parseEntries cb bpc max fuel p (out ++ [fi])
      else parseEntries cb bpc max fuel (off + 32) out
    else out

def parseDirCluster (cb : Buf) (bpc max : Nat) : List ExfatFileInfo :=
  parseEntries cb bpc max bpc 0 []

def xstrcmp : List Byte → List Byte → Int
  | [], [] => 0
  | [], b :: _ => -(b.toNat : Int)
  | a :: _, [] => a.toNat
  | a :: as, b :: bs => if a ≠ 0 ∧ a = b then xstrcmp as bs else (a.toNat : Int) - b.toNat

namespace Exfat

/-- The loop of `exfat_list_dir`. Every round but the last adds an entry, so `max + 1` rounds
are enough. -/
def listLoop (max : Nat) : Nat → Exfat → Nat → List ExfatFileInfo → List ExfatFileInfo × Exfat
  | 0, fs, _, out => (out, fs)
  | fuel + 1, fs, cluster, out =>
    if 2 ≤ cluster ∧ cluster ≠ CHAIN_END then
      match fs.readCluster cluster fs.tmp with
      | (false, tmp, fs) => (out, { fs with tmp := tmp })
      | (true, tmp, fs) =>
        let fs := { fs with tmp := tmp }
        let found := parseDirCluster tmp fs.bpc (max - out.length)
        if found.length = 0 then (out, fs)
        else
          let (next, fs) := fs.nextCluster cluster
          listLoop max fuel fs next (out ++ found)
    else (out, fs)

def exfatListDir (fs : Exfat) (dirCluster max : Nat) : List ExfatFileInfo × Exfat :=
  if fs.ok then listLoop max (max + 1) fs dirCluster [] else ([], fs)

/-- `none` is the return value -1. -/
def exfatFind (fs : Exfat) (dirCluster : Nat) (fname : List Byte) : Option ExfatFileInfo × Exfat :=
  if fs.ok then
    let (infos, fs) := fs.exfatListDir dirCluster 64
    (infos.find? fun fi => xstrcmp fi.name fname = 0, fs)
  else (none, fs)

/-- The loop of `exfat_read_file`; `pos` bytes have been delivered. With a positive cluster
size, `size` rounds are enough. -/
def readLoop : Nat → Exfat → Nat → Nat → Nat → Buf → Option (Int × Buf × Exfat)
  | fuel, fs, cluster, remaining, pos, buf =>
    if remaining = 0 then some (0, buf, fs)
    else
      match fuel with
      | 0 => none
      | fuel + 1 =>
        if cluster < 2 ∨ cluster = CHAIN_END then some (-1, buf, fs)
        else
          match fs.readCluster cluster fs.tmp with
          | (false, tmp, fs) => some (-1, buf, { fs with tmp := tmp })
          | (true, tmp, fs) =>
            let fs := { fs with tmp := tmp }
            let chunk := if remaining < fs.bpc then remaining else fs.bpc
            let (next, fs) := fs.nextCluster cluster
            readLoop fuel fs next (remaining - chunk) (pos + chunk) (blit buf pos tmp chunk)

/-- `none` means that `size` rounds of the loop do not finish it. -/
def exfatReadFile (fs : Exfat) (firstCluster size : Nat) (buf : Buf) : Option (Int × Buf × Exfat) :=
  if fs.ok then readLoop size fs firstCluster size 0 buf else some (-1, buf, fs)

/-! ### Writing a file -/

/-- The number of characters before the NUL, at most 255. -/
def nameLen (fname : List Byte) : Nat := min 255 (fname.takeWhile (· ≠ 0)).length

/-- The search for the bitmap entry from `o` on; 0 if there is none. -/
def bitmapEntry (rd : Buf) (bpc : Nat) : Nat → Nat → Nat
  | 0, _ => 0
  | fuel + 1, o =>
    if o < bpc then
      if rd o = EXFAT_BITMAP then le rd (o + 20) 4
      else if rd o = EXFAT_EOD then 0
      else bitmapEntry rd bpc fuel (o + 32)
    else 0

/-- The search for a clear bit; `n` clusters are left, `cc` is the next one. -/
def searchBitmap (bm : Buf) : Nat → Nat → Nat
  | 0, _ => 0
  | n + 1, cc =>
    if bm (cc / 8) &&& (1#8 <<< (cc % 8)) = 0 then cc else searchBitmap bm n (cc + 1)

/-- Step 3: `n` sectors of the data are left, `k` is the next one. A sector is read, changed
and written back. The list holds the sectors given to `sec_wr`. -/
def writeData (lba0 : Nat) (data : Buf) (size : Nat) : Exfat → Nat → Nat → Int × List Nat × Exfat
  | fs, 0, _ => (0, [], fs)
  | fs, n + 1, k =>
    let lba := wrap32 (lba0 + k)
    match fs.secRd lba 1 fs.stack 0 with
    | (false, _, fs) => (-2, [], fs)
    | (true, sec, fs) =>
      match fs.secWr lba 1 (blit sec 0 (from_ data (k * 512)) (min 512 (size - k * 512))) with
      | (false, fs) => (-3, [lba], fs)
      | (true, fs) =>
        let (code, lbas, fs) := writeData lba0 data size fs n (k + 1)
        (code, lba :: lbas, fs)

/-- The search for the end of the directory. -/
def dirEnd (rd : Buf) (bpc : Nat) : Nat → Nat → Nat
  | 0, off => off
  | fuel + 1, off => if rd off ≠ EXFAT_EOD ∧ off < bpc then dirEnd rd bpc fuel (off + 32) else off

/-- The characters of the name entry at `p`, from the `i`-th on. -/
def putName (p : Nat) : List Byte → Nat → Buf → Buf
  | [], _, rd => rd
  | c :: cs, i, rd =>
    putName p cs (i + 1) (Function.update (Function.update rd (p + 2 + i * 2) c) (p + 2 + i * 2 + 1) 0)

/-- The entry set of a new file at `off`: file, stream and name entry and the end mark. -/
def putEntrySet (rd : Buf) (off : Nat) (fname : List Byte) (size freeCluster : Nat) : Buf :=
  let nlen := nameLen fname
  let rd := Function.update rd off EXFAT_FILE
  let rd := Function.update rd (off + 2) 0x20
  let rd := Function.update rd (off + 32) EXFAT_STREAM
  let rd := Function.update rd (off + 32 + 3) (BitVec.ofNat 8 nlen)
  let rd := blit rd (off + 32 + 8) (leBytes size) 8
  let rd := blit rd (off + 32 + 20) (leBytes freeCluster) 4
  let rd := blit rd (off + 32 + 24) (leBytes size) 8
  let rd := Function.update rd (off + 64) EXFAT_NAME
  let rd := putName (off + 64) (fname.take nlen) 0 rd
  Function.update rd (off + 96) EXFAT_EOD

/-- A call of `exfat_write_file`: its result, `free_cluster` at its end, the sectors step 3 and
the bitmap step 4 have given to `sec_wr`. -/
structure WriteRun where
  code : Int
  freeCluster : Nat
  dataLbas : List Nat
  bitmapOut : Option Buf
  fs : Exfat

/-- The call stops before a cluster is chosen. -/
def WriteRun.early (code : Int) (fs : Exfat) : WriteRun := ⟨code, 0, [], none, fs⟩

/-- Step 5: the directory. -/
def writeEntry (fs : Exfat) (rd : Buf) (fname : List Byte) (size freeCluster : Nat) : Int × Exfat :=
  let off := dirEnd rd fs.bpc fs.bpc 0
  if off + 96 > fs.bpc then (-6, fs)
  else
    let rd := putEntrySet rd off fname size freeCluster
    let dn := if fs.bpc / 512 = 0 then 1 else fs.bpc / 512
    match fs.secWr (fs.clusterToLba fs.boot.rootDirCluster) dn rd with
    | (false, fs) => (-5, fs)
    | (true, fs) => (0, fs)

/-- Steps 3 to 5 for the chosen cluster. -/
def writeChosen (fs : Exfat) (rd bm : Buf) (bmCluster freeCluster : Nat) (fname : List Byte)
    (data : Buf) (size : Nat) : WriteRun :=
  match writeData (fs.clusterToLba freeCluster) data size fs ((size + 511) / 512) 0 with
  | (code, lbas, fs) =>
    if code ≠ 0 then ⟨code, freeCluster, lbas, none, fs⟩
    else
      let bm := setBit bm freeCluster
      match fs.secWr (fs.clusterToLba bmCluster) fs.spc bm with
      | (false, fs) => ⟨-4, freeCluster, lbas, some bm, fs⟩
      | (true, fs) =>
        let (code, fs) := fs.writeEntry rd fname size freeCluster
        ⟨code, freeCluster, lbas, some bm, fs⟩

def exfatWriteFile (fs : Exfat) (fname : List Byte) (data : Buf) (size : Nat) : WriteRun :=
  if fs.ok then
    if nameLen fname = 0 ∨ size > fs.bpc then .early (-2) fs
    else
      match fs.readCluster fs.boot.rootDirCluster fs.stack with
      | (false, _, fs) => .early (-3) fs
      | (true, rd, fs) =>
        let bmCluster := bitmapEntry rd fs.bpc fs.bpc 0
        if bmCluster = 0 then .early (-4) fs
        else
          match fs.readCluster bmCluster fs.stack with
          | (false, _, fs) => .early (-1) fs
          | (true, bm, fs) =>
            let freeCluster := searchBitmap bm (fs.boot.clusterCount - 2) 2
            if freeCluster = 0 then .early (-5) fs
            else fs.writeChosen rd bm bmCluster freeCluster fname data size
  else .early (-1) fs

/-! ### Mounting -/

/-- `55 AA` at the end of a sector. -/
def hasSignature (sec : Buf) : Bool := sec 510 == 0x55 && sec 511 == 0xAA

/-- The test for an exFAT boot sector. -/
def isExfat (sec : Buf) : Bool :=
  sec 3 == 0x45 && sec 4 == 0x58 && sec 5 == 0x46 && sec 6 == 0x41 && sec 7 == 0x54 &&
    hasSignature sec

/-- The start of the first partition of an MBR. -/
def firstPartition (mbr : Buf) : Nat := le mbr 454 4

def decodeBoot (buf : Buf) : ExfatBoot where
  partitionOffset := le buf 0x40 8
  volumeLength := le buf 0x48 8
  fatOffset := le buf 0x50 4
  fatLength := le buf 0x54 4
  clusterHeapOffset := le buf 0x58 4
  clusterCount := le buf 0x5C 4
  rootDirCluster := le buf 0x60 4
  serial := le buf 0x64 4
  bpsShift := le buf 0x6C 1
  spcShift := le buf 0x6D 1
  numFats := le buf 0x6E 1

/-- `1u << shift`: the processor takes the shift count modulo 32. -/
def shl1 (shift : Nat) : Nat := 2 ^ (shift % 32)

/-- The NVMe part of `exfat_init`: the boot sector of the first partition, if it is exFAT. -/
def probeNvme (fs : Exfat) : Option Buf × Exfat :=
  match fs.secRd 0 1 fs.stack 0 with
  | (false, _, fs) => (none, fs)
  | (true, mbr, fs) =>
    let pl := firstPartition mbr
    if hasSignature mbr ∧ pl ≠ 0 then
      match fs.secRd pl 1 fs.stack 0 with
      | (false, _, fs) => (none, fs)
      | (true, buf, fs) =>
        if isExfat buf then (some buf, { fs with ch := 0, dv := 0, partLba := pl }) else (none, fs)
    else (none, fs)

/-- `ide_read_sector` of one sector, as `exfat_init` calls it. -/
def ideRd (fs : Exfat) (ch dv lba : Nat) : Option Buf × Exfat :=
  match fs.disks.ideReadSector ch dv lba 1 fs.stack 0 with
  | (false, _, d) => (none, { fs with disks := d })
  | (true, buf, d) => (some buf, { fs with disks := d })

/-- One round of the probing loops. -/
def probeAt (fs : Exfat) (ch dv : Nat) : Option Buf × Exfat :=
  match fs.ideRd ch dv 0 with
  | (none, fs) => (none, fs)
  | (some mbr, fs) =>
    let pl := firstPartition mbr
    if hasSignature mbr ∧ pl ≠ 0 then
      match fs.ideRd ch dv pl with
      | (none, fs) => (none, fs)
      | (some buf, fs) =>
        if isExfat buf then (some buf, { fs with ch := ch, dv := dv, partLba := pl })
        else (none, fs)
    else (none, fs)

/-- The probing loops: the first position with an exFAT volume. -/
def probeAta : List (Nat × Nat) → Exfat → Option Buf × Exfat
  | [], fs => (none, fs)
  | (ch, dv) :: rest, fs =>
    match fs.probeAt ch dv with
    | (some buf, fs) => (some buf, fs)
    | (none, fs) => probeAta rest fs

/-- The end of `exfat_init`: the geometry is copied from `buf`, which `src` names. -/
def loadBoot (fs : Exfat) (buf : Buf) (src : Dev × Nat) : Int × Exfat :=
  let boot := decodeBoot buf
  let bps := shl1 boot.bpsShift
  let spc := shl1 boot.spcShift
  let bpc := wrap32 (bps * spc)
  let fs := { fs with boot := boot, bps := bps, spc := spc, bpc := bpc, bootFrom := some src }
  if bpc > TMP_SIZE then (-4, fs) else (0, { fs with ok := true })

/-- `exfat_init` after the NVMe part: `found` is the boot sector found there. -/
def initFrom (fs : Exfat) (found : Option Buf) : Int × Exfat :=
  if fs.devForced then
    match fs.ideRd fs.ch fs.dv fs.partLba with
    | (none, fs) => (-7, fs)
    | (some buf, fs) =>
      if isExfat buf then fs.loadBoot buf (.ata fs.ch fs.dv, fs.partLba) else (-7, fs)
  else
    match found with
    | some buf => fs.loadBoot buf (.nvme, fs.partLba)
    | none =>
      match probeAta [(0, 0), (0, 1), (1, 0), (1, 1)] fs with
      | (none, fs) => (-8, fs)
      | (some buf, fs) => fs.loadBoot buf (.ata fs.ch fs.dv, fs.partLba)

def exfatInit (fs : Exfat) : Int × Exfat :=
  if fs.disks.ready then
    match fs.probeNvme with
    | (none, fs) => (-8, fs)
    | (some buf, fs) => fs.initFrom (some buf)
  else fs.initFrom none

end Exfat

end WinDOS
