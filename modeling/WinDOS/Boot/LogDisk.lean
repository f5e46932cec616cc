import WinDOS.Fs.Exfat

/-!
# The log disk (`sys/logdisk.h`)

The kernel writes raw sectors of the NVMe disk in two places, the self-test and the log disk.
Every such write that is given to the controller is recorded.
-/

set_option autoImplicit false

namespace WinDOS

open Bytes

def LOGDISK_LBA0 : Nat := 2048
def LOGDISK_MAX_SECT : Nat := 1024
def LOGDISK_BUF_SZ : Nat := 4096

/-- A raw write, and whether it has succeeded. -/
structure RawWrite where
  slba : Nat
  nlb : Nat
  buf : Buf
  ok : Bool

structure Kernel where
  fs : Exfat
  exfatOnNvme : Bool
  logbuf : Buf
  loglen : Nat
  logsect : Nat
  /-- `g_logdisk_ok`; the sink is installed at the same time. -/
  logdiskOk : Bool
  rawWrites : List RawWrite

namespace Kernel

/-- `nvme_rw` with opcode 0x01 outside the file system. -/
def rawWrite (k : Kernel) (slba nlb : Nat) (buf : Buf) : Bool × Kernel :=
  let (ok, d) := k.fs.disks.nvmeWrite slba nlb buf
  let rawWrites :=
    if k.fs.disks.ready && k.fs.disks.queues then k.rawWrites ++ [⟨slba, nlb, buf, ok⟩]
    else k.rawWrites
  (ok, { k with fs := { k.fs with disks := d }, rawWrites := rawWrites })

def logdiskFlush (k : Kernel) : Kernel :=
  if k.logdiskOk = false ∨ k.loglen = 0 then k
  else
    let nlb := (k.loglen + 511) / 512
    if k.logsect + nlb > LOGDISK_MAX_SECT then { k with loglen := 0 }
    else
      match k.rawWrite (LOGDISK_LBA0 + k.logsect) nlb k.logbuf with
      | (true, k) => { k with logsect := k.logsect + nlb, loglen := 0 }
      | (false, k) => { k with loglen := 0 }

/-- The character loop of `logdisk_sink`. -/
def sinkChars (k : Kernel) : List Byte → Kernel
  | [] => k
  | c :: s =>
    let k := if k.loglen ≥ LOGDISK_BUF_SZ then k.logdiskFlush else k
    if k.loglen ≥ LOGDISK_BUF_SZ then k
    else sinkChars { k with logbuf := Function.update k.logbuf k.loglen c, loglen := k.loglen + 1 } s

def logdiskSink (k : Kernel) (s : List Byte) : Kernel :=
  if k.logdiskOk then k.sinkChars s else k

/-- `logdisk_init`; its result is 0 or -1. -/
def logdiskInit (k : Kernel) : Int × Kernel :=
  if k.fs.disks.ready then (0, { k with loglen := 0, logsect := 0, logdiskOk := true })
  else (-1, k)

end Kernel

end WinDOS
