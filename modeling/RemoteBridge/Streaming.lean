import RemoteBridge.Frames
import RemoteBridge.RtpVideo

/-!
# Streaming

The host's video, `run_webrtc`: the capture thread hands frames over a channel that holds one
(`WebRtcCaptureHandler`), and the loop takes, encodes and sends them and prints what went out.
The two run beside each other.

ScreenCaptureKit, ffmpeg and the clock are not under `src/`: what they give comes with each
step.  Counters are natural numbers, where the host's have 32 and 64 bits: how far they get is
`counters_le`.
-/

namespace RemoteBridge

open Frames (RawFrame packBgra)
open RtpVideo (Instant VideoSender)

namespace Streaming

/-- The locked pixel buffer of a sample. -/
structure PixelBuffer where
  bytes : List UInt8
  width : Nat
  height : Nat
  bytesPerRow : Nat
deriving DecidableEq

/-- What the encoder gives for a frame, packet by packet until there is none: a packet may
have no data. -/
abbrev Packets := List (Option (List UInt8))

/-- `drain`: the data of the packets end to end. -/
def drain (packets : Packets) : List UInt8 := packets.flatMap (·.getD [])

/-- Where the loop is. -/
inductive Point where
  | recv
  | encode (raw : RawFrame) (captured started : Instant)
  | write (packet : List UInt8) (captured : Instant)
  | report
  | returned
deriving DecidableEq

/-- A line that the loop prints. -/
inductive Line where
  | writeFailed (error : RtpVideo.Error)
  | stats (frames bytes elapsed encode dropped : Nat)
deriving DecidableEq

/-- A frame that was handed to `write_frame`, and what that returned. -/
structure Write where
  packet : List UInt8
  call : RtpVideo.Call
  result : Except RtpVideo.Error Unit

end Streaming

open Streaming

structure Streaming where
  channel : Option (RawFrame × Instant)
  dropped : Nat
  point : Point
  video : VideoSender
  writeFailing : Bool
  statsSince : Instant
  statsFrames : Nat
  statsBytes : Nat
  statsEncode : Nat
  printed : List Line
  writes : List Write

namespace Streaming

/-- The loop at its start. -/
def init (start statsSince : Instant) : Streaming :=
  ⟨none, 0, .recv, RtpVideo.new start, false, statsSince, 0, 0, 0, [], []⟩

/-- `try_send`, and the count of the frames it fails for. -/
def trySend (s : Streaming) (item : RawFrame × Instant) : Streaming :=
  if s.channel = none ∧ s.point ≠ .returned then { s with channel := some item }
  else { s with dropped := s.dropped + 1 }

/-- `did_output_sample_buffer`: a sample may come without a buffer that can be read. -/
def didOutputSampleBuffer (s : Streaming) (sample : Option PixelBuffer) (captured : Instant) :
    Option Streaming :=
  match sample with
  | none => some s
  | some buffer =>
      (packBgra buffer.bytes buffer.width buffer.height buffer.bytesPerRow).map fun frame =>
        s.trySend (frame, captured)

/-- `write_frame`, and the one line about writes that fail one after another. -/
def writeFrame (s : Streaming) (packet : List UInt8) (call : RtpVideo.Call) : Streaming :=
  let result := (s.video.writeFrame call).1
  let s := { s with
    point := .report
    video := (s.video.writeFrame call).2
    writes := s.writes ++ [⟨packet, call, result⟩] }
  match result with
  | .ok () => { s with writeFailing := false }
  | .error e =>
      if !s.writeFailing then
        { s with printed := s.printed ++ [.writeFailed e], writeFailing := true }
      else s

/-- Every 5 s, unless nothing was encoded. -/
def report (s : Streaming) (now restarted : Instant) : Streaming :=
  let elapsed := now - s.statsSince
  if 5 * 10 ^ 9 ≤ elapsed ∧ 0 < s.statsFrames then
    { s with
      point := .recv
      printed := s.printed ++
        [.stats s.statsFrames s.statsBytes elapsed s.statsEncode s.dropped]
      dropped := 0
      statsSince := restarted
      statsFrames := 0
      statsBytes := 0
      statsEncode := 0 }
  else { s with point := .recv }

inductive Event where
  /-- the capture thread has a sample -/
  | capture (sample : Option PixelBuffer) (captured : Instant)
  | recv (started : Instant)
  /-- the frame is converted and encoded, which may fail -/
  | encode (packets : Option Packets) (finished : Instant)
  /-- `write_frame`: what the payloader makes of it, and which writes would succeed -/
  | write (payloads : Option (List (List UInt8))) (succeeds : Nat → Bool)
  | report (now restarted : Instant)

def step (s : Streaming) : Event → Option Streaming
  | .capture sample captured => s.didOutputSampleBuffer sample captured
  | .recv started =>
      match s.point, s.channel with
      | .recv, some (raw, captured) =>
          some { s with point := .encode raw captured started, channel := none }
      | _, _ => none
  | .encode packets finished =>
      match s.point, packets with
      | .encode _ _ _, none => some { s with point := .returned }
      | .encode _ captured started, some packets =>
          let packet := drain packets
          let s := { s with statsEncode := s.statsEncode + (finished - started) }
          if packet ≠ [] then
            some { s with
              point := .write packet captured
              statsFrames := s.statsFrames + 1
              statsBytes := s.statsBytes + packet.length }
          else some { s with point := .report }
      | _, _ => none
  | .write payloads succeeds =>
      match s.point with
      | .write packet captured => some (s.writeFrame packet ⟨captured, payloads, succeeds⟩)
      | _ => none
  | .report now restarted =>
      match s.point with
      | .report => some (s.report now restarted)
      | _ => none

def machine : Machine Streaming Event := ⟨step⟩

end Streaming

end RemoteBridge
