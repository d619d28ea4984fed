import Mathlib.Algebra.Order.Floor.Ring
import Mathlib.Data.Rat.Floor
import RemoteBridge.Machine

/-!
# RtpVideo

The sender of encoded frames, `rtp_video.rs`: a frame is split into packets, which are
numbered one after another and stamped with the frame's capture time.

Times are computed in exact arithmetic.  The H.264 payloader and the track are not under
`src/`: what they answer comes with each call.
-/

namespace RemoteBridge.RtpVideo

/-! ## Timestamps -/

/-- A reading of the monotonic clock, in nanoseconds. -/
abbrev Instant := Nat

/-- H.264 over RTP always uses a 90 kHz clock. -/
def clockRate : ℚ := 90000

/-- `as_secs_f64`, of a duration in nanoseconds. -/
def asSecs (duration : Nat) : ℚ := duration / 10 ^ 9

/-- `as u64`: the whole part, saturated. -/
def asU64 (x : ℚ) : UInt64 := UInt64.ofNat (min ⌊x⌋.toNat (2 ^ 64 - 1))

/-- The RTP timestamp for a frame captured at `captured`. -/
def rtpTimestamp (start captured : Instant) : UInt32 :=
  let ticks := asSecs (captured - start) * clockRate
  (asU64 ticks &&& 0xffffffff).toUInt32

/-! ## Packets -/

/-- The fields of an RTP header that are set here; the rest are the track's. -/
structure Header where
  version : UInt8
  marker : Bool
  sequenceNumber : UInt16
  timestamp : UInt32
deriving DecidableEq

structure Packet where
  header : Header
  payload : List UInt8
deriving DecidableEq

/-- A packet handed to the track, and whether `write_rtp` succeeded. -/
structure Written where
  packet : Packet
  delivered : Bool
deriving DecidableEq

namespace Written

def sequenceNumber (w : Written) : UInt16 := w.packet.header.sequenceNumber

def timestamp (w : Written) : UInt32 := w.packet.header.timestamp

def marker (w : Written) : Bool := w.packet.header.marker

end Written

/-! ## The sender -/

/-- The sender, with what each call handed to its track. -/
structure VideoSender where
  track : List (List Written)
  sequence : UInt16
  start : Instant

def new (start : Instant) : VideoSender := ⟨[], 0, start⟩

/-- A call of `write_frame`: what the payloader makes of the frame, `none` if it fails,
and which of the call's writes would succeed. -/
structure Call where
  captured : Instant
  payloads : Option (List (List UInt8))
  succeeds : Nat → Bool

/-- The loop of `write_frame`, from the packet `i` on: what is handed to the track, the
next sequence number, and whether the loop reached its end. -/
def writePackets (timestamp : UInt32) (count : Nat) (succeeds : Nat → Bool) :
    UInt16 → Nat → List (List UInt8) → List Written × UInt16 × Bool
  | sequence, _, [] => ([], sequence, true)
  | sequence, i, payload :: payloads =>
      let packet : Packet :=
        { header :=
            { version := 2
              marker := i == count - 1
              sequenceNumber := sequence
              timestamp }
          payload }
      -- The number is used up whether or not the write succeeds.
      let sequence := sequence + 1
      if succeeds i then
        let (written, sequence, ok) := writePackets timestamp count succeeds sequence (i + 1) payloads
        (⟨packet, true⟩ :: written, sequence, ok)
      else ([⟨packet, false⟩], sequence, false)

inductive Error where
  | payload
  | write
deriving DecidableEq

def VideoSender.writeFrame (s : VideoSender) (call : Call) : Except Error Unit × VideoSender :=
  let timestamp := rtpTimestamp s.start call.captured
  match call.payloads with
  | none => (.error .payload, { s with track := s.track ++ [[]] })
  | some payloads =>
      let count := payloads.length
      let (written, sequence, ok) :=
        writePackets timestamp count call.succeeds s.sequence 0 payloads
      (if ok then .ok () else .error .write, { s with track := s.track ++ [written], sequence })

/-- The encoder's loop calls `write_frame` for one frame after another, whatever it
returns. -/
def machine : Machine VideoSender Call where
  step s call := some (s.writeFrame call).2

end RemoteBridge.RtpVideo
