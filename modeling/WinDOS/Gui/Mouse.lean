import WinDOS.Gui.Handlers

/-!
# The mouse decoder (`sys/ps2.h`) and the bytes `isr2c_handler` reads

A mouse sends packets of three bytes; `md` collects them in phases 1 to 3. Phase 0 waits for
the acknowledgement 0xFA of the enable command.
-/

set_option autoImplicit false

namespace WinDOS

/-- The packet under assembly, `struct MP`. -/
structure MP where
  b0 : BitVec 8
  b1 : BitVec 8
  b2 : BitVec 8
  phase : BitVec 8
  btn : BitVec 8
  x : Int
  y : Int
deriving DecidableEq, Repr

namespace MP

/-- The static `g_m` at the start; `mouse_enable` does not touch it. -/
def zero : MP := ⟨0, 0, 0, 0, 0, 0, 0⟩

/-- `v = b; if (sign) v |= 0xFFFFFF00;` on an `int`. -/
def delta (b : BitVec 8) (sign : Bool) : Int :=
  (if sign then b.setWidth 32 ||| 0xFFFFFF00#32 else b.setWidth 32).toInt

/-- The third byte completes the packet. -/
def complete (m : MP) (d : BitVec 8) : MP :=
  { m with
    b2 := d
    phase := 1
    btn := m.b0 &&& 0x07
    x := delta m.b1 (m.b0 &&& 0x10 != 0)
    y := -delta d (m.b0 &&& 0x20 != 0) }

def md (m : MP) (d : BitVec 8) : MP × Int :=
  if m.phase = 0 ∧ d = 0xFA then ({ m with phase := 1 }, 0)
  else if m.phase = 1 then
    if d &&& 0xC8 ≠ 0x08 then (m, 0) else ({ m with b0 := d, phase := 2 }, 0)
  else if m.phase = 2 then ({ m with b1 := d, phase := 3 }, 0)
  else if m.phase = 3 then (m.complete d, 1)
  else (m, -1)

/-- The packet branch of the handler, if it is taken: buttons and movement it works with. -/
def branch (m : MP) (d : BitVec 8) : Option (BitVec 8 × Int × Int) :=
  if (m.md d).2 ≠ 0 then some ((m.md d).1.btn, (m.md d).1.x, (m.md d).1.y) else none

def branches : MP → List (BitVec 8) → List (Option (BitVec 8 × Int × Int))
  | _, [] => []
  | m, d :: ds => m.branch d :: branches (m.md d).1 ds

end MP

/-- `isr2c_handler` with status byte `s` and data byte `d`. -/
def isr2cHandler (font : Font) (g : Gui) (m : MP) (s d : BitVec 8) : Gui × MP :=
  if s &&& 0x01 ≠ 0 ∧ s &&& 0x20 ≠ 0 then
    if (m.md d).2 ≠ 0 then
      (g.isr2cPacket font (m.md d).1.btn.toNat (m.md d).1.x (m.md d).1.y, (m.md d).1)
    else (g, (m.md d).1)
  else (g, m)

/-- The handler over bytes that all come from the mouse. -/
def isr2cBytes (font : Font) (g : Gui) (m : MP) (ds : List (BitVec 8)) : Gui × MP :=
  ds.foldl (fun st d => isr2cHandler font st.1 st.2 0x21 d) (g, m)

/-- The GUI sees the branches and nothing else of the bytes. -/
theorem isr2cBytes_gui (font : Font) (g : Gui) (m : MP) (ds : List (BitVec 8)) :
    (isr2cBytes font g m ds).1 = (m.branches ds).foldl (fun g p =>
      match p with
      | none => g
      | some (btn, dx, dy) => g.isr2cPacket font btn.toNat dx dy) g := by
  induction ds generalizing g m with
  | nil => rfl
  | cons d ds ih =>
    have hmouse : (0x21 : BitVec 8) &&& 0x01 ≠ 0 ∧ (0x21 : BitVec 8) &&& 0x20 ≠ 0 := by decide
    unfold isr2cBytes at ih ⊢
    rw [List.foldl_cons, MP.branches, List.foldl_cons, isr2cHandler, if_pos hmouse, MP.branch]
    by_cases hr : (m.md d).2 ≠ 0
    · rw [if_pos hr, if_pos hr]
      exact ih _ _
    · rw [if_neg hr, if_neg hr]
      exact ih _ _

/-- A packet of the mouse; the first byte has the marker bit and no overflow. -/
structure Packet where
  b0 : BitVec 8
  b1 : BitVec 8
  b2 : BitVec 8
  valid : b0 &&& 0xC8 = 0x08

namespace Packet

def bytes (p : Packet) : List (BitVec 8) := [p.b0, p.b1, p.b2]

/-- A movement in nine bits, the sign in the first byte. -/
def signed (b : BitVec 8) (sign : Bool) : Int := b.toNat - if sign then 256 else 0

/-- Buttons and movement of a packet; the screen counts downwards. -/
def event (p : Packet) : BitVec 8 × Int × Int :=
  (p.b0 &&& 0x07, signed p.b1 (p.b0 &&& 0x10 != 0), -signed p.b2 (p.b0 &&& 0x20 != 0))

end Packet

/-- One branch for each packet, after its third byte. -/
def OncePerPacket (m : MP) (ps : List Packet) : Prop :=
  m.branches (ps.flatMap Packet.bytes) = ps.flatMap fun p => [none, none, some p.event]

namespace MP

theorem delta_eq (b : BitVec 8) (sign : Bool) : delta b sign = Packet.signed b sign := by
  revert b sign
  decide +kernel

/-- Without the acknowledgement phase 0 is never left, and every byte counts as a packet. -/
theorem md_waiting {m : MP} {d : BitVec 8} (hphase : m.phase = 0) (hd : d ≠ 0xFA) :
    m.md d = (m, -1) := by
  unfold md
  rw [if_neg fun h => hd h.2, hphase]
  rfl

theorem branch_waiting {m : MP} {d : BitVec 8} (hphase : m.phase = 0) (hd : d ≠ 0xFA) :
    m.branch d = some (m.btn, m.x, m.y) := by
  unfold branch
  rw [md_waiting hphase hd]
  rfl

theorem md_packet {m : MP} (hphase : m.phase = 1) (p : Packet) :
    m.md p.b0 = ({ m with b0 := p.b0, phase := 2 }, 0) ∧
    ({ m with b0 := p.b0, phase := 2 } : MP).md p.b1 =
      ({ m with b0 := p.b0, b1 := p.b1, phase := 3 }, 0) ∧
    ({ m with b0 := p.b0, b1 := p.b1, phase := 3 } : MP).md p.b2 =
      (({ m with b0 := p.b0, b1 := p.b1, phase := 3 } : MP).complete p.b2, 1) := by
  unfold md
  refine ⟨?_, ?_, ?_⟩
  · rw [if_neg (by rw [hphase]; exact fun h => absurd h.1 (by decide)), if_pos hphase,
      if_neg (not_not.mpr p.valid)]
  · rw [if_neg fun h => absurd h.1 (by decide : ¬ (2 : BitVec 8) = 0),
      if_neg (by decide : ¬ (2 : BitVec 8) = 1), if_pos rfl]
  · rw [if_neg fun h => absurd h.1 (by decide : ¬ (3 : BitVec 8) = 0),
      if_neg (by decide : ¬ (3 : BitVec 8) = 1), if_neg (by decide : ¬ (3 : BitVec 8) = 2),
      if_pos rfl]

/-- In step with the packets, three bytes make one branch. -/
theorem branches_packet {m : MP} (hphase : m.phase = 1) (p : Packet) (ds : List (BitVec 8)) :
    ∃ m' : MP, m'.phase = 1 ∧ m.branches (p.bytes ++ ds) =
      [none, none, some p.event] ++ m'.branches ds := by
  obtain ⟨h1, h2, h3⟩ := md_packet hphase p
  refine ⟨({ m with b0 := p.b0, b1 := p.b1, phase := 3 } : MP).complete p.b2, rfl, ?_⟩
  unfold Packet.bytes
  simp only [List.cons_append, List.nil_append, branches, branch, h1, h2, h3]
  simp [complete, Packet.event, delta_eq]

/-- After the acknowledgement the decoder is right about every sequence of packets. -/
theorem oncePerPacket_acknowledged {m : MP} (hphase : m.phase = 1) (ps : List Packet) :
    OncePerPacket m ps := by
  induction ps generalizing m with
  | nil => rfl
  | cons p ps ih =>
    obtain ⟨m', hm', heq⟩ := branches_packet hphase p (ps.flatMap Packet.bytes)
    unfold OncePerPacket
    rw [List.flatMap_cons, heq, List.flatMap_cons, ih hm']

end MP

theorem Packet.ne_ack (p : Packet) : p.b0 ≠ 0xFA := by
  intro h
  have := p.valid
  rw [h] at this
  exact absurd this (by decide)

/-- With the acknowledgement drained the first byte of the first packet already takes the branch. -/
theorem mouse_decoder_iff (ps : List Packet) : OncePerPacket MP.zero ps ↔ ps = [] := by
  constructor
  · intro h
    cases ps with
    | nil => rfl
    | cons p ps =>
      unfold OncePerPacket at h
      rw [List.flatMap_cons, List.flatMap_cons, Packet.bytes, List.cons_append, MP.branches,
        MP.branch_waiting rfl p.ne_ack] at h
      exact nomatch (List.cons.inj h).1
  · rintro rfl
    rfl

/-- One packet: left button, one step to the right. -/
def leftClick : Packet := ⟨0x09, 0x01, 0x00, by decide⟩

/-- The handler takes its branch for each of the three bytes, without buttons or movement. -/
theorem mouse_decoder_waits : ¬ OncePerPacket MP.zero [leftClick] ∧
    MP.zero.branches leftClick.bytes = [some (0, 0, 0), some (0, 0, 0), some (0, 0, 0)] := by
  refine ⟨fun h => ?_, by decide⟩
  exact absurd h (by unfold OncePerPacket; decide)

/-! ### Bytes between the packets -/

/-- What arrives in phase 1: a packet, or a byte that cannot start one. -/
inductive Received where
  | packet (p : Packet)
  | noise (d : BitVec 8) (skipped : d &&& 0xC8 ≠ 0x08)

namespace Received

def bytes : Received → List (BitVec 8)
  | packet p => p.bytes
  | noise d _ => [d]

/-- What `md` has to return for each byte, with the packet it has decoded. -/
def results : Received → List (Int × Option (BitVec 8 × Int × Int))
  | packet p => [(0, none), (0, none), (1, some p.event)]
  | noise _ _ => [(0, none)]

def packet? : Received → Option Packet
  | packet p => some p
  | noise _ _ => none

end Received

namespace MP

/-- What `md` returns for each byte, and the packet in `m` whenever it returns 1. -/
def feed : MP → List (BitVec 8) → List (Int × Option (BitVec 8 × Int × Int))
  | _, [] => []
  | m, d :: ds =>
    ((m.md d).2, if (m.md d).2 = 1 then some ((m.md d).1.btn, (m.md d).1.x, (m.md d).1.y) else none)
      :: feed (m.md d).1 ds

/-- In phase 1 a byte that cannot start a packet is dropped. -/
theorem md_noise {m : MP} (hphase : m.phase = 1) {d : BitVec 8} (hd : d &&& 0xC8 ≠ 0x08) :
    m.md d = (m, 0) := by
  unfold md
  rw [if_neg (by rw [hphase]; exact fun h => absurd h.1 (by decide)), if_pos hphase, if_pos hd]

theorem feed_packet {m : MP} (hphase : m.phase = 1) (p : Packet) (ds : List (BitVec 8)) :
    ∃ m' : MP, m'.phase = 1 ∧ m.feed (p.bytes ++ ds) =
      (Received.packet p).results ++ m'.feed ds := by
  obtain ⟨h1, h2, h3⟩ := md_packet hphase p
  refine ⟨({ m with b0 := p.b0, b1 := p.b1, phase := 3 } : MP).complete p.b2, rfl, ?_⟩
  unfold Packet.bytes
  simp only [List.cons_append, List.nil_append, feed, h1, h2, h3]
  simp [complete, Packet.event, delta_eq, Received.results]

theorem feed_received {m : MP} (hphase : m.phase = 1) (rs : List Received) :
    m.feed (rs.flatMap Received.bytes) = rs.flatMap Received.results := by
  induction rs generalizing m with
  | nil => rfl
  | cons r rs ih =>
    rw [List.flatMap_cons, List.flatMap_cons]
    cases r with
    | packet p =>
      obtain ⟨m', hm', heq⟩ := feed_packet hphase p (rs.flatMap Received.bytes)
      exact heq.trans (congrArg _ (ih hm'))
    | noise d hd =>
      have hskip := md_noise hphase hd
      change m.feed (d :: rs.flatMap Received.bytes) = _
      rw [feed, hskip]
      exact congrArg _ (ih hphase)

end MP

/-- The movement is the nine-bit number of the sign bit and the byte. -/
theorem Packet.signed_eq (b : BitVec 8) (sign : Bool) :
    signed b sign = (BitVec.cons sign b).toInt := by
  revert b sign
  decide +kernel

theorem Packet.event_eq (p : Packet) : p.event = (p.b0 &&& 0x07,
    (BitVec.cons (p.b0.getLsbD 4) p.b1).toInt, -(BitVec.cons (p.b0.getLsbD 5) p.b2).toInt) := by
  have hbits : ∀ b : BitVec 8, (b &&& 0x10 != 0) = b.getLsbD 4 ∧ (b &&& 0x20 != 0) = b.getLsbD 5 := by
    decide +kernel
  unfold event
  rw [(hbits p.b0).1, (hbits p.b0).2, signed_eq, signed_eq]

theorem results_events (rs : List Received) :
    (rs.flatMap Received.results).filterMap Prod.snd =
      (rs.filterMap Received.packet?).map Packet.event := by
  induction rs with
  | nil => rfl
  | cons r rs ih =>
    rw [List.flatMap_cons, List.filterMap_append, ih]
    cases r <;> rfl

/-- From phase 1 every packet is decoded at its third byte, whatever comes between packets. -/
theorem mouse_stream_decoded {m : MP} (hphase : m.phase = 1) (rs : List Received) :
    m.feed (rs.flatMap Received.bytes) = rs.flatMap Received.results ∧
    (∀ p : Packet, p.event = (p.b0 &&& 0x07, (BitVec.cons (p.b0.getLsbD 4) p.b1).toInt,
      -(BitVec.cons (p.b0.getLsbD 5) p.b2).toInt)) ∧
    (m.feed (rs.flatMap Received.bytes)).filterMap Prod.snd =
      (m.feed ((rs.filterMap Received.packet?).flatMap Packet.bytes)).filterMap Prod.snd := by
  have hpackets : (rs.filterMap Received.packet?).flatMap Packet.bytes =
      ((rs.filterMap Received.packet?).map Received.packet).flatMap Received.bytes := by
    rw [List.flatMap_map]
    rfl
  refine ⟨MP.feed_received hphase rs, Packet.event_eq, ?_⟩
  rw [hpackets, MP.feed_received hphase, MP.feed_received hphase, results_events, results_events,
    List.filterMap_map]
  congr 1
  exact (List.filterMap_some (l := rs.filterMap Received.packet?)).symm

/-- Two packets with two stray bytes between them, one of them the marker 0xFA. -/
theorem mouse_stream_decoded_stray : ({ MP.zero with phase := 1 } : MP).feed
      [0x39, 0xFF, 0x01, 0xFA, 0x00, 0x09, 0x01, 0x00] =
    [(0, none), (0, none), (1, some (1, -1, 255)), (0, none), (0, none), (0, none), (0, none),
      (1, some (1, 1, 0))] :=
  (mouse_stream_decoded rfl [.packet ⟨0x39, 0xFF, 0x01, by decide⟩, .noise 0xFA (by decide),
    .noise 0x00 (by decide), .packet leftClick]).1

end WinDOS
