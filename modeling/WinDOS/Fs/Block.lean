import WinDOS.Lib.Media

/-!
# Disk drivers and the block layer (`fs/ata.h`, `fs/nvme.h`, `fs/exfat.cpp`)

The drivers are seen at their interface: a command transfers whole sectors or fails. No
caller tells the error codes of a driver apart, so a driver call answers with success or
failure. The bounce buffer of the block layer holds nothing between two calls.
-/

set_option autoImplicit false

namespace WinDOS

open Bytes

/-- The NVMe disk, or the ATA disk on a channel (0 primary, 1 secondary) at a position
(0 master, 1 slave). -/
inductive Dev where
  | nvme
  | ata (ch dv : Nat)
deriving DecidableEq, Repr

def wrap32 (n : Nat) : Nat := n % 2 ^ 32

theorem wrap32_wrap32_add (a b : Nat) : wrap32 (wrap32 a + b) = wrap32 (a + b) := by
  unfold wrap32
  omega

/-- The four address fields of a command take 28 bits of the sector number. -/
def lba28 (lba : Nat) : Nat := lba % 2 ^ 28

/-- The disks, and what the NVMe driver keeps of its controller: `g_nvme.ready`, and whether
the I/O queues have been allocated. -/
structure Disks where
  media : Media Dev
  ready : Bool
  queues : Bool

namespace Disks

/-- One round of `ide_read_sector` per sector; `buf` is filled from `off` on. -/
def ideReadSector (ch dv : Nat) : Disks → Nat → Nat → Buf → Nat → Bool × Buf × Disks
  | d, _, 0, buf, _ => (true, buf, d)
  | d, lba, count + 1, buf, off =>
    match d.media.read (.ata ch dv) (lba28 lba) with
    | (none, m) => (false, buf, { d with media := m })
    | (some sec, m) =>
      ideReadSector ch dv { d with media := m } (lba + 1) count (blit buf off sec 512) (off + 512)

def ideWriteSector (ch dv : Nat) : Disks → Nat → Nat → Buf → Bool × Disks
  | d, _, 0, _ => (true, d)
  | d, lba, count + 1, buf =>
    match d.media.write (.ata ch dv) (lba28 lba) 1 buf with
    | (false, m) => (false, { d with media := m })
    | (true, m) => ideWriteSector ch dv { d with media := m } (lba + 1) count (from_ buf 512)

/-- `nvme_rw` with opcode 0x02: no command is issued before the controller is ready and the
queues exist. -/
def nvmeRead (d : Disks) (slba : Nat) : Option Buf × Disks :=
  if d.ready && d.queues then
    let (res, m) := d.media.read .nvme slba
    (res, { d with media := m })
  else (none, d)

/-- `nvme_rw` with opcode 0x01. -/
def nvmeWrite (d : Disks) (slba nlb : Nat) (buf : Buf) : Bool × Disks :=
  if d.ready && d.queues then
    let (res, m) := d.media.write .nvme slba nlb buf
    (res, { d with media := m })
  else (false, d)

end Disks

end WinDOS
