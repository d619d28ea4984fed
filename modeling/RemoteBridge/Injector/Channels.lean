import RemoteBridge.Injector.Buttons
import RemoteBridge.Injector.Parse

/-!
# Injector.Channels

The way of the viewers' input: a session's data channel hands its messages to `on_message` and
then to the injector thread, over a queue that all sessions share, and `on_close` puts a
`Reset` behind them (`start_session`, `start_injector`).

Channels are reliable and in order; a channel that closes loses what is still under way.
-/

namespace RemoteBridge

open Injector

/-- The input channel of a session, with the messages `on_message` was given and those it was
not given yet.  A message that is not JSON is `none`. -/
structure InputChannel where
  isOpen : Bool
  delivered : List (Option Json)
  inFlight : List (Option Json)

/-- `serde_json::from_slice`. -/
def InputChannel.read [SerdeJson] (message : Option Json) : Option (InputEvent Binary64) :=
  message.bind Injector.parse

/-- The injector's thread. -/
inductive Thread where
  | starting
  | running (injector : Injector.State Binary64)
  /-- no permission, or no display -/
  | disabled

/-- The input of all sessions.  The events are tagged with their channel, which no code reads,
and those the thread took are kept. -/
structure Inputs where
  channels : List InputChannel
  queue : List (Nat × InputEvent Binary64)
  thread : Thread
  taken : List (Nat × InputEvent Binary64)

namespace Inputs

def captureWidth : UInt32 := 1280

def captureHeight : UInt32 := 720

def init : Inputs := ⟨[], [], .starting, []⟩

/-- `to_injector.send`: a send fails when the thread is gone. -/
def send (s : Inputs) (item : Nat × InputEvent Binary64) : Inputs :=
  match s.thread with
  | .disabled => s
  | _ => { s with queue := s.queue ++ [item] }

/-- Events that are put in the queue are kept there, unless the thread is gone. -/
def accepts (s : Inputs) : Bool :=
  match s.thread with
  | .disabled => false
  | _ => true

theorem send_eq (s : Inputs) (item : Nat × InputEvent Binary64) :
    s.send item = { s with queue := s.queue ++ if s.accepts then [item] else [] } := by
  obtain ⟨channels, queue, thread, taken⟩ := s
  cases thread <;> simp [send, accepts]

inductive Event where
  /-- the thread starts, with the size of the display if input is allowed -/
  | start (display : Option (Int32 × Int32))
  /-- a session's channel opens -/
  | openChannel
  /-- a page sends a message -/
  | page (i : Nat) (message : Option Json)
  | onMessage (i : Nat)
  | onClose (i : Nat)
  /-- the thread takes the next event -/
  | take

section

variable [Double Binary64] [SerdeJson]

def step (os : Os) (s : Inputs) : Event → Option Inputs
  | .start display =>
      match s.thread, display with
      | .starting, some (width, height) =>
          some { s with
            thread := .running (Injector.init
              (FrameMap.new captureWidth captureHeight width height)) }
      | .starting, none => some { s with thread := .disabled, queue := [] }
      | _, _ => none
  | .openChannel => some { s with channels := s.channels ++ [⟨true, [], []⟩] }
  | .page i message =>
      match s.channels[i]? with
      | some ⟨true, delivered, inFlight⟩ =>
          some { s with channels := s.channels.set i ⟨true, delivered, inFlight ++ [message]⟩ }
      | _ => none
  | .onMessage i =>
      match s.channels[i]? with
      | some ⟨true, delivered, message :: inFlight⟩ =>
          let s := { s with
            channels := s.channels.set i ⟨true, delivered ++ [message], inFlight⟩ }
          match InputChannel.read message with
          | some event => some (s.send (i, event))
          | none => some s
      | _ => none
  | .onClose i =>
      match s.channels[i]? with
      | some ⟨true, delivered, inFlight⟩ =>
          some ({ s with channels := s.channels.set i ⟨false, delivered, inFlight⟩ }.send
            (i, .reset))
      | _ => none
  | .take =>
      match s.thread, s.queue with
      | .running injector, item :: queue =>
          some { s with
            queue
            thread := .running (after (apply os item.2) injector)
            taken := s.taken ++ [item] }
      | _, _ => none

def machine (os : Os) : Machine Inputs Event := ⟨step os⟩

/-! ## Steps -/

/-- What a step does. -/
inductive Step (os : Os) (s : Inputs) : Event → Inputs → Prop
  | started {width height} (hthread : s.thread = .starting) :
      Step os s (.start (some (width, height)))
        { s with
          thread := .running (Injector.init
            (FrameMap.new captureWidth captureHeight width height)) }
  | disabled (hthread : s.thread = .starting) :
      Step os s (.start none) { s with thread := .disabled, queue := [] }
  | opened : Step os s .openChannel { s with channels := s.channels ++ [⟨true, [], []⟩] }
  | sent {i message delivered inFlight} (hc : s.channels[i]? = some ⟨true, delivered, inFlight⟩) :
      Step os s (.page i message)
        { s with channels := s.channels.set i ⟨true, delivered, inFlight ++ [message]⟩ }
  | handled {i message delivered inFlight}
      (hc : s.channels[i]? = some ⟨true, delivered, message :: inFlight⟩) :
      Step os s (.onMessage i)
        { s with
          channels := s.channels.set i ⟨true, delivered ++ [message], inFlight⟩
          queue := s.queue ++ if s.accepts then
            ((InputChannel.read message).map (i, ·)).toList else [] }
  | closed {i delivered inFlight} (hc : s.channels[i]? = some ⟨true, delivered, inFlight⟩) :
      Step os s (.onClose i)
        { s with
          channels := s.channels.set i ⟨false, delivered, inFlight⟩
          queue := s.queue ++ if s.accepts then [(i, .reset)] else [] }
  | took {injector item queue} (hthread : s.thread = .running injector)
      (hqueue : s.queue = item :: queue) :
      Step os s .take
        { s with
          queue
          thread := .running (after (apply os item.2) injector)
          taken := s.taken ++ [item] }

variable {os : Os} {s s' : Inputs} {e : Event} {es : List Event}

theorem Step.of_step (h : s.step os e = some s') : Step os s e s' := by
  cases e with
  | start display =>
      simp only [step] at h
      split at h
      · next hthread => exact Option.some.inj h ▸ .started hthread
      · next hthread => exact Option.some.inj h ▸ .disabled hthread
      · contradiction
  | openChannel => exact Option.some.inj h ▸ .opened
  | page i message =>
      simp only [step] at h
      split at h
      · next hc => exact Option.some.inj h ▸ .sent hc
      · contradiction
  | onMessage i =>
      simp only [step] at h
      split at h
      · next delivered message inFlight hc =>
          have hstep : Step os s (.onMessage i) _ := .handled hc
          cases hread : InputChannel.read message with
          | none =>
              rw [hread] at h hstep
              obtain rfl := Option.some.inj h
              simpa using hstep
          | some event =>
              rw [hread] at h hstep
              obtain rfl := Option.some.inj h
              rw [send_eq]
              exact hstep
      · contradiction
  | onClose i =>
      simp only [step] at h
      split at h
      · next hc =>
          rw [send_eq] at h
          exact Option.some.inj h ▸ .closed hc
      · contradiction
  | take =>
      simp only [step] at h
      split at h
      · next hthread hqueue => exact Option.some.inj h ▸ .took hthread hqueue
      · contradiction

end

/-! ## Order -/

/-- A channel, open and unused before it is opened. -/
def channel (s : Inputs) (i : Nat) : InputChannel := s.channels[i]?.getD ⟨true, [], []⟩

/-- The events of a channel. -/
def ofChannel (i : Nat) (items : List (Nat × InputEvent Binary64)) : List (InputEvent Binary64) :=
  (items.filter (·.1 = i)).map (·.2)

/-- The messages that a page sent over a channel. -/
def sentOver (i : Nat) (es : List Event) : List (Option Json) :=
  es.filterMap fun e =>
    match e with
    | .page j message => if j = i then some message else none
    | _ => none

/-- What a channel gives the injector: its messages that can be read, and a `Reset` after the
last of them. -/
def eventsOf [SerdeJson] (c : InputChannel) : List (InputEvent Binary64) :=
  c.delivered.filterMap InputChannel.read ++ if c.isOpen then [] else [.reset]

/-- Each channel's messages are given to the injector once, in the order they were sent. -/
structure Ordered [SerdeJson] (es : List Event) (s : Inputs) : Prop where
  sent : ∀ i, sentOver i es = (s.channel i).delivered ++ (s.channel i).inFlight
  events : s.accepts → ∀ i, ofChannel i (s.taken ++ s.queue) = eventsOf (s.channel i)

variable {os : Os} {s s' : Inputs} {e : Event} {es : List Event} {i j : Nat} {c c' : InputChannel}

theorem channel_of_get (hc : s.channels[i]? = some c) : s.channel i = c := by
  rw [channel, hc, Option.getD_some]

theorem channel_set (hc : s.channels[i]? = some c) (hs' : s'.channels = s.channels.set i c') :
    s'.channel j = if i = j then c' else s.channel j := by
  rw [channel, hs', List.getElem?_set, channel]
  split
  · rw [if_pos (List.getElem?_eq_some_iff.mp hc).1, Option.getD_some]
  · rfl

theorem channel_append (hs' : s'.channels = s.channels ++ [⟨true, [], []⟩]) :
    s'.channel i = s.channel i := by
  rw [channel, hs', List.getElem?_append, channel]
  split
  · rfl
  · next hge =>
      rw [List.getElem?_eq_none (not_lt.mp hge)]
      cases i - s.channels.length <;> rfl

theorem ofChannel_append (i : Nat) (xs ys : List (Nat × InputEvent Binary64)) :
    ofChannel i (xs ++ ys) = ofChannel i xs ++ ofChannel i ys := by
  rw [ofChannel, List.filter_append, List.map_append]
  rfl

theorem ofChannel_tagged (i j : Nat) (event : Option (InputEvent Binary64)) :
    ofChannel j (event.map (i, ·)).toList = if i = j then event.toList else [] := by
  cases event <;> by_cases h : i = j <;> simp [ofChannel, h]

theorem sentOver_append (i : Nat) (es : List Event) (e : Event) :
    sentOver i (es ++ [e]) = sentOver i es ++ sentOver i [e] := List.filterMap_append

/-- A step in which no page sends. -/
theorem Ordered.quiet [SerdeJson] (h : Ordered es s) (he : ∀ i, sentOver i [e] = [])
    (hchannel : ∀ i, s'.channel i = s.channel i)
    (hevents : s'.accepts → s.accepts ∧ s'.taken ++ s'.queue = s.taken ++ s.queue) :
    Ordered (es ++ [e]) s' := by
  refine ⟨fun i => ?_, fun haccepts i => ?_⟩
  · rw [sentOver_append, he, List.append_nil, hchannel, h.sent i]
  · obtain ⟨haccepts, heq⟩ := hevents haccepts
    rw [heq, hchannel, h.events haccepts i]

/-- A step of one channel: over it a message is sent, or it gives the injector `new`. -/
theorem Ordered.channel [SerdeJson] (h : Ordered es s) (hc : s.channels[i]? = some c)
    (hs' : s'.channels = s.channels.set i c') (hother : ∀ j, i ≠ j → sentOver j [e] = [])
    (hsent : c'.delivered ++ c'.inFlight = c.delivered ++ c.inFlight ++ sentOver i [e])
    (haccepts : s'.accepts = s.accepts) (new : List (Nat × InputEvent Binary64))
    (hnew : s.accepts → s'.taken ++ s'.queue = s.taken ++ s.queue ++ new ∧
      eventsOf c' = eventsOf c ++ ofChannel i new ∧ ∀ j, i ≠ j → ofChannel j new = []) :
    Ordered (es ++ [e]) s' := by
  refine ⟨fun j => ?_, fun hs j => ?_⟩
  · rw [sentOver_append, channel_set hc hs']
    split
    · next heq =>
        subst heq
        rw [h.sent, channel_of_get hc, hsent]
    · next hne => rw [hother j hne, List.append_nil, h.sent]
  · rw [haccepts] at hs
    obtain ⟨hitems, hgiven, hrest⟩ := hnew hs
    rw [hitems, ofChannel_append, h.events hs, channel_set hc hs']
    split
    · next heq =>
        subst heq
        rw [channel_of_get hc, hgiven]
    · next hne => rw [hrest j hne, List.append_nil]

theorem eventsOf_open [SerdeJson] {delivered inFlight inFlight' : List (Option Json)}
    {message : Option Json} : eventsOf ⟨true, delivered ++ [message], inFlight'⟩ =
      eventsOf ⟨true, delivered, inFlight⟩ ++ (InputChannel.read message).toList := by
  cases hread : InputChannel.read message <;> simp [eventsOf, hread]

section

variable [Double Binary64] [SerdeJson]

theorem Ordered.step (h : Ordered es s) (hstep : Step os s e s') : Ordered (es ++ [e]) s' := by
  cases hstep with
  | started hthread =>
      exact h.quiet (fun _ => rfl) (fun _ => rfl) fun _ => ⟨by simp [accepts, hthread], rfl⟩
  | disabled => exact h.quiet (fun _ => rfl) (fun _ => rfl) fun haccepts => by contradiction
  | opened => exact h.quiet (fun _ => rfl) (fun _ => channel_append rfl) fun hs => ⟨hs, rfl⟩
  | sent hc =>
      refine h.channel hc rfl (fun j hne => ?_) ?_ rfl [] fun _ => ⟨?_, ?_, fun _ _ => rfl⟩
      · simp [sentOver, hne]
      · simp [sentOver]
      · exact (List.append_nil _).symm
      · exact (List.append_nil _).symm
  | @handled i message delivered inFlight hc =>
      refine h.channel hc rfl (fun _ _ => rfl) ?_ rfl
        ((InputChannel.read message).map (i, ·)).toList fun hs => ⟨?_, ?_, fun j hne => ?_⟩
      · simp [sentOver]
      · simp [hs]
      · rw [ofChannel_tagged, if_pos rfl]
        exact eventsOf_open
      · rw [ofChannel_tagged, if_neg hne]
  | @closed i delivered inFlight hc =>
      refine h.channel hc rfl (fun _ _ => rfl) ?_ rfl [(i, .reset)]
        fun hs => ⟨?_, ?_, fun j hne => ?_⟩
      · exact (List.append_nil _).symm
      · simp [hs]
      · simp [eventsOf, ofChannel]
      · simp [ofChannel, hne]
  | took hthread hqueue =>
      refine h.quiet (fun _ => rfl) (fun _ => rfl) fun _ => ⟨by simp [accepts, hthread], ?_⟩
      rw [hqueue, List.append_assoc]
      rfl

/-! ## The injector -/

/-- The thread's state after the events that it took. -/
def Injecting (os : Os) (s : Inputs) : Prop :=
  match s.thread with
  | .running injector => ∃ width height,
      (Injector.machine os).Run (Injector.init
        (FrameMap.new captureWidth captureHeight width height)) (s.taken.map (·.2)) injector
  | .starting | .disabled => s.taken = []

theorem Injecting.step (h : Injecting os s) (hstep : Step os s e s') : Injecting os s' := by
  cases hstep with
  | @started width height hthread =>
      rw [Injecting, hthread] at h
      refine ⟨width, height, ?_⟩
      rw [h]
      exact Machine.run_nil.mpr rfl
  | disabled hthread =>
      rw [Injecting, hthread] at h
      exact h
  | opened | sent | handled | closed => exact h
  | took hthread hqueue =>
      rw [Injecting, hthread] at h
      obtain ⟨width, height, hrun⟩ := h
      refine ⟨width, height, ?_⟩
      rw [List.map_append, List.map_singleton]
      exact Machine.run_snoc.mpr ⟨_, hrun, rfl⟩

/-- **Input arrives in order and once.**  Over each channel the messages are handed on in the
order in which the page sent them, none twice and none left out before one that is; the injector
takes those that can be read in that order, whatever other channels give it, and after the last
of a channel that closed one `Reset`; and its state is that after the events it took. -/
theorem input_in_order (hrun : (machine os).Run init es s) : Ordered es s ∧ Injecting os s := by
  refine ⟨hrun.rec_snoc (P := fun es s => Ordered es s) ⟨fun i => rfl, fun _ i => rfl⟩ ?_,
    hrun.invariant (show Injecting os init from rfl) ?_⟩
  · exact fun es e s s' _ h hstep => h.step (.of_step hstep)
  · exact fun s e s' h hstep => h.step (.of_step hstep)

/-! ## After the last channel closed -/

/-- The buttons that the injector holds down. -/
def held (s : Inputs) : List MouseButton :=
  match s.thread with
  | .running injector => injector.held
  | .starting | .disabled => []

/-- With no channel open the last event is a `Reset`, or it was taken. -/
def Settled (s : Inputs) : Prop :=
  (∀ c ∈ s.channels, c.isOpen = false) →
    s.queue = [] ∧ s.held = [] ∨ ∃ i, s.queue.getLast? = some (i, .reset)

omit [SerdeJson] in
theorem held_reset {injector : Injector.State Binary64} :
    (after (apply os .reset) injector).held = [] := by
  obtain ⟨-, -, -, hheld, -⟩ :=
    @after_releaseAll _ os injector.held { injector with held := [] }
  rw [after_reset, hheld]

omit [Double Binary64] [SerdeJson] in
theorem isOpen_of_set (hc : s.channels[i]? = some c) (hopen : c'.isOpen)
    (hall : ∀ c ∈ s.channels.set i c', c.isOpen = false) : False := by
  have hmem := List.mem_set (List.getElem?_eq_some_iff.mp hc).1 c'
  rw [hall c' hmem] at hopen
  contradiction

theorem Settled.step (h : Settled s) (hdisabled : s.accepts = false → s.queue = [])
    (hstep : Step os s e s') : Settled s' := by
  intro hclosed
  cases hstep with
  | started hthread =>
      refine (h hclosed).imp_left fun hdone => ⟨hdone.1, rfl⟩
  | disabled => exact .inl ⟨rfl, rfl⟩
  | opened =>
      have hlast := hclosed ⟨true, [], []⟩ (List.mem_append_right _ List.mem_cons_self)
      contradiction
  | sent hc | handled hc => exact (isOpen_of_set hc rfl hclosed).elim
  | @closed i delivered inFlight hc =>
      cases haccepts : s.accepts with
      | true => exact .inr ⟨i, by simp⟩
      | false =>
          refine .inl ⟨by simp [hdisabled haccepts], ?_⟩
          obtain ⟨channels, queue, thread, taken⟩ := s
          cases thread with
          | disabled => rfl
          | starting | running => contradiction
  | @took injector item queue hthread hqueue =>
      rcases h hclosed with ⟨hempty, -⟩ | ⟨i, hlast⟩
      · rw [hqueue] at hempty
        contradiction
      · rw [hqueue] at hlast
        cases queue with
        | nil =>
            obtain rfl := Option.some.inj hlast
            exact .inl ⟨rfl, held_reset⟩
        | cons next queue => exact .inr ⟨i, hlast⟩

/-- A step that releases the held buttons releases them all. -/
def ResetsSucceed (os : Os) (s : Inputs) : Event → Prop
  | .take =>
      match s.thread, s.queue with
      | .running injector, (_, .reset) :: _ => Unfailing os injector .reset
      | _, _ => True
  | _ => True

/-- Every button that is down is held. -/
def TrackedButtons (s : Inputs) : Prop :=
  match s.thread with
  | .running injector => injector.held.Nodup ∧ Tracked injector
  | .starting | .disabled => True

omit [SerdeJson] in
theorem tracked_apply {injector : Injector.State Binary64} (h : Tracked injector)
    (hnodup : injector.held.Nodup) {event : InputEvent Binary64}
    (hreset : event = .reset → Unfailing os injector .reset) :
    Tracked (after (apply os event) injector) := by
  have hreleasable (hunfailing : Unfailing os injector event) :
      Tracked (after (apply os event) injector) :=
    ((releasable_iff hnodup h event).mpr hunfailing).tracked
  cases event with
  | up x y =>
      rw [apply, after_moveTo_bind]
      dsimp only
      have hmoved : Tracked (called os injector
          (.moveMouse (injector.map.toScreen x y).1 (injector.map.toScreen x y).2)) :=
        h.called (by simp)
      split
      · exact hmoved.release
      · exact hmoved
  | reset => exact hreleasable (hreset rfl)
  | _ => exact hreleasable trivial

theorem TrackedButtons.step (h : TrackedButtons s) (hreset : ResetsSucceed os s e)
    (hstep : Step os s e s') : TrackedButtons s' := by
  cases hstep with
  | started => exact ⟨List.nodup_nil, fun b hb => by simp [Injector.init, isDown] at hb⟩
  | disabled => trivial
  | opened | sent | handled | closed => exact h
  | @took injector item queue hthread hqueue =>
      rw [TrackedButtons, hthread] at h
      refine ⟨nodup_apply h.1 item.2, tracked_apply h.2 h.1 fun hevent => ?_⟩
      obtain ⟨i, event⟩ := item
      rw [show event = .reset from hevent] at hqueue
      simpa only [ResetsSucceed, hthread, hqueue] using hreset

end

/-! ## A run -/

/-- A button is pressed over one channel, which closes when another is open already. -/
def pressed : List Event :=
  [.start (some (1280, 720)), .openChannel,
    .page 0 (some (literal (Unicode.text "press")
      [(Unicode.text "button", .string (Unicode.text "left"))])),
    .page 0 none, .onMessage 0, .take, .openChannel, .onClose 0, .onClose 1, .take, .take]

/-- The operating system, where each call succeeds. -/
def obliging : Os := ⟨fun _ => true, fun _ => (0, 0)⟩

theorem exists_run_pressed :
    letI := Binary64.number .max
    letI := SerdeJson.nearest
    ∃ s, (machine obliging).Run init pressed s ∧
      s.taken = [(0, .press .left), (0, .reset), (1, .reset)] ∧ s.queue = [] ∧
      ∀ c ∈ s.channels, c.isOpen = false := by
  let _ := Binary64.number .max
  let _ := SerdeJson.nearest
  obtain ⟨s, hrun, hs⟩ := (machine obliging).exists_run init pressed
    (fun s => decide (s.taken = [(0, .press .left), (0, .reset), (1, .reset)] ∧ s.queue = [] ∧
      ∀ c ∈ s.channels, c.isOpen = false)) (by decide +kernel)
  exact ⟨s, hrun, of_decide_eq_true hs⟩

theorem input_in_order_pressed :
    letI := Binary64.number .max
    letI := SerdeJson.nearest
    ∃ s, (machine obliging).Run init pressed s ∧ Ordered pressed s ∧ Injecting obliging s := by
  let _ := Binary64.number .max
  let _ := SerdeJson.nearest
  obtain ⟨s, hrun, -⟩ := exists_run_pressed
  exact ⟨s, hrun, input_in_order hrun⟩

end Inputs

end RemoteBridge
