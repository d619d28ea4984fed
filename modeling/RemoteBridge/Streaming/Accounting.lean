import RemoteBridge.RtpVideo.Stream
import RemoteBridge.Streaming

/-!
# Streaming.Accounting

What becomes of the frames that are captured: the order in which they go out, how old they are
when they are taken, and that each is sent or counted; and what the printed lines say of it.
-/

namespace RemoteBridge

open Machine
open RtpVideo (Instant)

namespace Streaming

variable {s s' : Streaming} {e : Event} {es : List Event} {start since : Instant}

/-! ## Frames -/

/-- The frame that a sample gives. -/
def Event.item : Event → Option (Frames.RawFrame × Instant)
  | .capture (some buffer) captured =>
      (Frames.packBgra buffer.bytes buffer.width buffer.height buffer.bytesPerRow).map (·, captured)
  | _ => none

def Event.isRecv : Event → Bool
  | .recv _ => true
  | _ => false

/-- When the frame was captured that the loop is at. -/
def Point.captured : Point → List Instant
  | .encode _ captured _ | .write _ captured => [captured]
  | .recv | .report | .returned => []

/-- The frames that were written, are being encoded or wait, by their capture times. -/
def inFlight (s : Streaming) : List Instant :=
  s.writes.map (·.call.captured) ++ (s.point.captured ++ (s.channel.map (·.2)).toList)

/-- The frames that a line says were dropped. -/
def Line.dropped : Line → Nat
  | .stats _ _ _ _ dropped => dropped
  | .writeFailed _ => 0

/-- The frames that were dropped, as far as they are counted. -/
def lost (s : Streaming) : Nat := (s.printed.map Line.dropped).sum + s.dropped

/-! ## Steps -/

def failed : Except RtpVideo.Error Unit → Option RtpVideo.Error
  | .ok () => none
  | .error e => some e

/-- What a step does. -/
inductive Step (s : Streaming) : Event → Streaming → Prop
  | idle {sample captured} (hitem : (Event.capture sample captured).item = none) :
      Step s (.capture sample captured) s
  | kept {sample captured item} (hitem : (Event.capture sample captured).item = some item)
      (hchannel : s.channel = none) :
      Step s (.capture sample captured) { s with channel := some item }
  | dropped {sample captured item} (hitem : (Event.capture sample captured).item = some item)
      (hbusy : s.channel ≠ none ∨ s.point = .returned) :
      Step s (.capture sample captured) { s with dropped := s.dropped + 1 }
  | recv {raw captured started} (hpoint : s.point = .recv)
      (hchannel : s.channel = some (raw, captured)) :
      Step s (.recv started) { s with point := .encode raw captured started, channel := none }
  | failed {raw captured started finished} (hpoint : s.point = .encode raw captured started) :
      Step s (.encode none finished) { s with point := .returned }
  | empty {raw captured started finished packets} (hpoint : s.point = .encode raw captured started)
      (hpacket : drain packets = []) :
      Step s (.encode (some packets) finished)
        { s with statsEncode := s.statsEncode + (finished - started), point := .report }
  | encoded {raw captured started finished packets}
      (hpoint : s.point = .encode raw captured started) (hpacket : drain packets ≠ []) :
      Step s (.encode (some packets) finished)
        { s with
          statsEncode := s.statsEncode + (finished - started)
          point := .write (drain packets) captured
          statsFrames := s.statsFrames + 1
          statsBytes := s.statsBytes + (drain packets).length }
  | written {packet captured payloads succeeds} (hpoint : s.point = .write packet captured) :
      Step s (.write payloads succeeds)
        { s with
          point := .report
          video := (s.video.writeFrame ⟨captured, payloads, succeeds⟩).2
          writes := s.writes ++ [⟨packet, ⟨captured, payloads, succeeds⟩,
            (s.video.writeFrame ⟨captured, payloads, succeeds⟩).1⟩]
          writeFailing := (Streaming.failed
            (s.video.writeFrame ⟨captured, payloads, succeeds⟩).1).isSome
          printed := s.printed ++ if s.writeFailing then [] else
            ((Streaming.failed (s.video.writeFrame ⟨captured, payloads, succeeds⟩).1).map
              .writeFailed).toList }
  | quiet {now restarted} (hpoint : s.point = .report) :
      Step s (.report now restarted) { s with point := .recv }
  | reported {now restarted} (hpoint : s.point = .report)
      (helapsed : 5 * 10 ^ 9 ≤ now - s.statsSince) (hframes : 0 < s.statsFrames) :
      Step s (.report now restarted)
        { s with
          point := .recv
          printed := s.printed ++ [.stats s.statsFrames s.statsBytes (now - s.statsSince)
            s.statsEncode s.dropped]
          dropped := 0
          statsSince := restarted
          statsFrames := 0
          statsBytes := 0
          statsEncode := 0 }

theorem writeFrame_eq {packet : List UInt8} {call : RtpVideo.Call} :
    s.writeFrame packet call =
      { s with
        point := .report
        video := (s.video.writeFrame call).2
        writes := s.writes ++ [⟨packet, call, (s.video.writeFrame call).1⟩]
        writeFailing := (failed (s.video.writeFrame call).1).isSome
        printed := s.printed ++ if s.writeFailing then [] else
          ((failed (s.video.writeFrame call).1).map .writeFailed).toList } := by
  unfold writeFrame
  cases hresult : (s.video.writeFrame call).1 with
  | ok => simp [failed]
  | error e => cases s.writeFailing <;> simp [failed]

/-- A frame that was captured. -/
theorem Step.of_trySend {sample : Option PixelBuffer} {captured : Instant}
    {item : Frames.RawFrame × Instant} (hitem : (Event.capture sample captured).item = some item) :
    Step s (.capture sample captured) (s.trySend item) := by
  unfold trySend
  split
  · next hempty => exact .kept hitem hempty.1
  · next hbusy =>
      refine .dropped hitem ?_
      rwa [not_and_or, not_not] at hbusy

theorem Step.of_step (h : s.step e = some s') : Step s e s' := by
  cases e with
  | capture sample captured =>
      cases sample with
      | none =>
          obtain rfl := Option.some.inj h
          exact .idle rfl
      | some buffer =>
          obtain ⟨frame, hframe, rfl⟩ := Option.map_eq_some_iff.mp h
          refine .of_trySend ?_
          rw [Event.item, hframe, Option.map_some]
  | recv started =>
      simp only [step] at h
      split at h
      · next raw captured hpoint hchannel => exact Option.some.inj h ▸ .recv hpoint hchannel
      · contradiction
  | encode packets finished =>
      simp only [step] at h
      split at h
      · next raw captured started hpoint => exact Option.some.inj h ▸ .failed hpoint
      · next raw captured started packets hpoint =>
          split at h
          · next hpacket => exact Option.some.inj h ▸ .encoded hpoint hpacket
          · next hpacket => exact Option.some.inj h ▸ .empty hpoint (not_not.mp hpacket)
      · contradiction
  | write payloads succeeds =>
      simp only [step] at h
      split at h
      · next packet captured hpoint =>
          rw [writeFrame_eq] at h
          exact Option.some.inj h ▸ .written hpoint
      · contradiction
  | report now restarted =>
      simp only [step] at h
      split at h
      · next hpoint =>
          obtain rfl := Option.some.inj h
          simp only [report]
          split
          · next hdue => exact .reported hpoint hdue.1 hdue.2
          · exact .quiet hpoint
      · contradiction

/-! ## Where the frames go -/

/-- The frames in flight are those there were and the one that was captured. -/
theorem Step.inFlight (h : Step s e s') :
    s'.inFlight.Sublist (s.inFlight ++ (e.item.map (·.2)).toList) := by
  cases h with
  | idle hitem => simp [hitem]
  | kept hitem hchannel => simp [Streaming.inFlight, hitem, hchannel]
  | dropped hitem => exact List.sublist_append_left _ _
  | recv hpoint hchannel => simp [Streaming.inFlight, hpoint, hchannel, Point.captured]
  | failed hpoint | empty hpoint | encoded hpoint | written hpoint | quiet hpoint
  | reported hpoint => simp [Streaming.inFlight, hpoint, Point.captured, Event.item]

/-- A frame that is captured waits, is taken or is counted. -/
theorem Step.lost (h : Step s e s') :
    s'.lost + s'.channel.toList.length + (if e.isRecv then 1 else 0) =
      s.lost + s.channel.toList.length + e.item.toList.length := by
  cases h with
  | idle hitem => simp [hitem, Event.isRecv]
  | kept hitem hchannel => simp [Streaming.lost, hitem, hchannel, Event.isRecv]
  | dropped hitem =>
      simp [Streaming.lost, hitem, Event.isRecv]
      omega
  | recv hpoint hchannel => simp [Streaming.lost, hchannel, Event.isRecv, Event.item]
  | failed | empty | encoded | quiet => simp [Streaming.lost, Event.isRecv, Event.item]
  | written =>
      cases s.writeFailing <;> cases Streaming.failed (s.video.writeFrame _).1 <;>
        simp [Streaming.lost, Line.dropped, Event.isRecv, Event.item]
  | reported => simp [Streaming.lost, Line.dropped, Event.isRecv, Event.item]

/-- The frame in the channel came into it when it was empty, and was not taken since. -/
theorem Step.waiting {item : Frames.RawFrame × Instant} (h : Step s e s')
    (hitem : s'.channel = some item) :
    s.channel = some item ∧ e.isRecv = false ∨ e.item = some item ∧ s.channel = none := by
  cases h with
  | kept hcaptured hchannel =>
      obtain rfl := Option.some.inj hitem
      exact .inr ⟨hcaptured, hchannel⟩
  | recv => contradiction
  | _ => exact .inl ⟨hitem, rfl⟩

/-- **Every captured frame is accounted for.**  The frames go out in the order in which they were
captured, none twice; each was taken, waits in the channel, or is counted as dropped, in a line
or for the next one; and no frame was taken since the one that waits was captured, with the
channel empty. -/
theorem frames_accounted (hrun : machine.Run (init start since) es s) :
    s.inFlight.Sublist ((es.filterMap Event.item).map (·.2)) ∧
    (es.filterMap Event.item).length =
      es.countP Event.isRecv + s.channel.toList.length + s.lost ∧
    ∀ item, s.channel = some item →
      machine.Since (init start since) es (fun t e => e.item = some item ∧ t.channel = none)
        fun e => e.isRecv = false := by
  refine ⟨?_, ?_, fun item hitem => ?_⟩
  · refine hrun.rec_snoc (P := fun es s => s.inFlight.Sublist ((es.filterMap Event.item).map (·.2)))
      (List.nil_sublist _) fun es e s s' _ ih hstep => (Step.of_step hstep).inFlight.trans ?_
    rw [List.filterMap_append, List.map_append]
    refine ih.append ?_
    cases hitem : e.item <;> simp [hitem]
  · refine hrun.rec_snoc (P := fun es s => (es.filterMap Event.item).length =
      es.countP Event.isRecv + s.channel.toList.length + s.lost) rfl
      fun es e s s' _ ih hstep => ?_
    have hlost := (Step.of_step hstep).lost
    rw [List.filterMap_append, List.length_append, List.countP_append, List.countP_singleton]
    have hitems : ([e].filterMap Event.item).length = e.item.toList.length := by
      cases hitem : e.item <;> simp [hitem]
    omega
  · exact hrun.since (Q := fun s => s.channel = some item) hitem (fun h => nomatch h)
      fun s e s' _ hstep hitem => (Step.of_step hstep).waiting hitem

/-- Frames 1 to 3 of one pixel: the second waits while the first is encoded, and the third finds
it there. -/
theorem frames_accounted_three :
    ∃ s, machine.Run (init 0 0)
        [.capture (some ⟨[1, 1, 1, 1], 1, 1, 4⟩) 10, .recv 11,
          .capture (some ⟨[2, 2, 2, 2], 1, 1, 4⟩) 20, .capture (some ⟨[3, 3, 3, 3], 1, 1, 4⟩) 30] s ∧
      s.inFlight = [10, 20] ∧ s.lost = 1 ∧
      s.inFlight.Sublist [10, 20, 30] ∧ 3 = 1 + s.channel.toList.length + s.lost := by
  obtain ⟨s, hrun, hs⟩ := machine.exists_run (init 0 0)
    [.capture (some ⟨[1, 1, 1, 1], 1, 1, 4⟩) 10, .recv 11,
      .capture (some ⟨[2, 2, 2, 2], 1, 1, 4⟩) 20, .capture (some ⟨[3, 3, 3, 3], 1, 1, 4⟩) 30]
    (fun s => decide (s.inFlight = [10, 20] ∧ s.lost = 1)) (by decide +kernel)
  obtain ⟨hflight, hlost⟩ := of_decide_eq_true hs
  obtain ⟨hsublist, hcount, -⟩ := frames_accounted hrun
  exact ⟨s, hrun, hflight, hlost, hsublist, hcount⟩

/-! ## How far the counters get -/

/-- The bytes that a step encodes. -/
def Event.bytes : Event → Nat
  | .encode (some packets) _ => (drain packets).length
  | _ => 0

theorem Step.counters (h : Step s e s') :
    s'.statsFrames ≤ s.statsFrames + 1 ∧ s'.dropped ≤ s.dropped + 1 ∧
      s'.statsBytes ≤ s.statsBytes + e.bytes := by
  cases h <;> simp [Event.bytes]

/-- The counters stay below the steps and the bytes of the run: those of the host, which are
machine integers, do not wrap in a run of fewer than 2³² steps that encodes fewer than 2⁶⁴
bytes. -/
theorem counters_le (hrun : machine.Run (init start since) es s) :
    s.statsFrames ≤ es.length ∧ s.dropped ≤ es.length ∧
      s.statsBytes ≤ (es.map Event.bytes).sum := by
  refine hrun.rec_snoc (P := fun es s => s.statsFrames ≤ es.length ∧ s.dropped ≤ es.length ∧
    s.statsBytes ≤ (es.map Event.bytes).sum) ⟨Nat.le_refl _, Nat.le_refl _, Nat.le_refl _⟩ ?_
  intro es e s s' _ ⟨hframes, hdropped, hbytes⟩ hstep
  obtain ⟨hframes', hdropped', hbytes'⟩ := (Step.of_step hstep).counters
  rw [List.length_append, List.length_singleton, List.map_append, List.sum_append,
    List.map_singleton, List.sum_singleton]
  omega

/-! ## What the lines say -/

/-- The failures with none right before them. -/
def firstFailures (before : Option RtpVideo.Error) :
    List (Except RtpVideo.Error Unit) → List RtpVideo.Error
  | [] => []
  | result :: results =>
      (if before.isSome then [] else (failed result).toList) ++ firstFailures (failed result) results

def Line.failure : Line → Option RtpVideo.Error
  | .writeFailed e => some e
  | .stats _ _ _ _ _ => none

def Line.frames : Line → Nat
  | .stats frames _ _ _ _ => frames
  | .writeFailed _ => 0

def Line.bytes : Line → Nat
  | .stats _ bytes _ _ _ => bytes
  | .writeFailed _ => 0

/-- A line about frames is about some, and at least 5 s. -/
def Line.Due : Line → Prop
  | .stats frames _ elapsed _ _ => 0 < frames ∧ 5 * 10 ^ 9 ≤ elapsed
  | .writeFailed _ => True

/-- The frame that the loop is about to write. -/
def Point.packet : Point → List (List UInt8)
  | .write packet _ => [packet]
  | .recv | .encode _ _ _ | .report | .returned => []

/-- The encoded frames. -/
def encoded (s : Streaming) : List (List UInt8) := s.writes.map (·.packet) ++ s.point.packet

theorem firstFailures_append {before : Option RtpVideo.Error}
    {results : List (Except RtpVideo.Error Unit)} {result : Except RtpVideo.Error Unit} :
    firstFailures before (results ++ [result]) = firstFailures before results ++
      if (results.foldl (fun _ result => failed result) before).isSome then []
      else (failed result).toList := by
  induction results generalizing before with
  | nil => rw [List.nil_append, firstFailures, firstFailures, firstFailures, List.append_nil,
      List.nil_append, List.foldl_nil]
  | cons result results ih =>
      rw [List.cons_append, firstFailures, ih, firstFailures, List.foldl_cons, List.append_assoc]

/-- What the lines and the counters say of the frames that were written. -/
structure Reported (start : Instant) (s : Streaming) : Prop where
  video : RtpVideo.machine.Run (RtpVideo.new start) (s.writes.map (·.call)) s.video
  failing : s.writeFailing =
    ((s.writes.map (·.result)).foldl (fun _ result => failed result) none).isSome
  failures : s.printed.filterMap Line.failure = firstFailures none (s.writes.map (·.result))
  frames : (s.printed.map Line.frames).sum + s.statsFrames = s.encoded.length
  bytes : (s.printed.map Line.bytes).sum + s.statsBytes = s.encoded.flatten.length
  due : ∀ line ∈ s.printed, line.Due

theorem Reported.step (h : Reported start s) (hstep : Step s e s') : Reported start s' := by
  cases hstep with
  | idle => exact h
  | kept | dropped => exact ⟨h.video, h.failing, h.failures, h.frames, h.bytes, h.due⟩
  | recv hpoint | failed hpoint | empty hpoint | quiet hpoint =>
      have hframes := h.frames
      have hbytes := h.bytes
      rw [Streaming.encoded, hpoint] at hframes hbytes
      exact ⟨h.video, h.failing, h.failures, hframes, hbytes, h.due⟩
  | encoded hpoint =>
      have hframes := h.frames
      have hbytes := h.bytes
      rw [Streaming.encoded, hpoint] at hframes hbytes
      refine ⟨h.video, h.failing, h.failures, ?_, ?_, h.due⟩
      · simp [Streaming.encoded, Point.packet] at hframes ⊢
        omega
      · simp [Streaming.encoded, Point.packet] at hbytes ⊢
        omega
  | written hpoint =>
      have hframes := h.frames
      have hbytes := h.bytes
      rw [Streaming.encoded, hpoint] at hframes hbytes
      have hlines {line : Line} {result : Except RtpVideo.Error Unit}
          (hline : line ∈ if s.writeFailing then [] else
            ((Streaming.failed result).map Line.writeFailed).toList) :
          ∃ e, line = .writeFailed e := by
        split at hline
        · contradiction
        · obtain ⟨e, -, rfl⟩ := Option.map_eq_some_iff.mp (Option.mem_toList.mp hline)
          exact ⟨e, rfl⟩
      constructor
      · rw [List.map_append]
        exact run_snoc.mpr ⟨_, h.video, rfl⟩
      · simp
      · rw [List.map_append, List.map_singleton, firstFailures_append, ← h.failing,
          List.filterMap_append, h.failures]
        cases s.writeFailing <;> cases Streaming.failed (s.video.writeFrame _).1 <;>
          simp [Line.failure]
      · cases s.writeFailing <;> cases Streaming.failed (s.video.writeFrame _).1 <;>
          simpa [Line.frames, Streaming.encoded, Point.packet] using hframes
      · cases s.writeFailing <;> cases Streaming.failed (s.video.writeFrame _).1 <;>
          simpa [Line.bytes, Streaming.encoded, Point.packet] using hbytes
      · rw [List.forall_mem_append]
        refine ⟨h.due, fun line hline => ?_⟩
        obtain ⟨e, rfl⟩ := hlines hline
        trivial
  | reported hpoint helapsed hframes' =>
      have hframes := h.frames
      have hbytes := h.bytes
      rw [Streaming.encoded, hpoint] at hframes hbytes
      constructor
      · exact h.video
      · exact h.failing
      · rw [List.filterMap_append, h.failures]
        exact List.append_nil _
      · simpa [Line.frames, Streaming.encoded, Point.packet] using hframes
      · simpa [Line.bytes, Streaming.encoded, Point.packet] using hbytes
      · rw [List.forall_mem_append, List.forall_mem_singleton]
        exact ⟨h.due, hframes', helapsed⟩

/-- **The lines say what went out.**  The frames are written by one `VideoSender` after the
other, whatever becomes of each.  A failed write is reported exactly if the one before it did not
fail; the frames and bytes of the lines are those that were encoded, but for those of the next
line; and a line about frames comes after 5 s and has some. -/
theorem lines_accounted (hrun : machine.Run (init start since) es s) : Reported start s := by
  refine hrun.invariant ⟨run_nil.mpr rfl, rfl, rfl, rfl, rfl, fun _ h => nomatch h⟩ ?_
  exact fun s e s' h hstep => h.step (.of_step hstep)

/-- Two writes fail one after the other, and a third does after one that succeeded. -/
theorem lines_accounted_failing :
    ∃ s, machine.Run (init 0 0) (List.flatten ([false, false, true, false].map fun ok =>
        [.capture (some ⟨[1, 1, 1, 1], 1, 1, 4⟩) 10, .recv 11, .encode (some [some [7], none]) 12,
          .write (some [[7]]) fun _ => ok, .report (10 ^ 9) (10 ^ 9)])) s ∧
      s.printed = [.writeFailed .write, .writeFailed .write] ∧ Reported 0 s := by
  obtain ⟨s, hrun, hs⟩ := machine.exists_run (init 0 0)
    (List.flatten ([false, false, true, false].map fun ok =>
      [.capture (some ⟨[1, 1, 1, 1], 1, 1, 4⟩) 10, .recv 11, .encode (some [some [7], none]) 12,
        .write (some [[7]]) fun _ => ok, .report (10 ^ 9) (10 ^ 9)]))
    (fun s => decide (s.printed = [.writeFailed .write, .writeFailed .write])) (by decide +kernel)
  exact ⟨s, hrun, of_decide_eq_true hs, lines_accounted hrun⟩

end Streaming

end RemoteBridge
