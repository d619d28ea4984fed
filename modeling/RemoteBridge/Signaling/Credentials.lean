import RemoteBridge.Signaling.Steps

/-!
# Signaling.Credentials

The relay credentials that sessions are started with.  The server mints them when
the host's connection is registered, for a day; the host keeps them for all the
sessions it starts over that connection.
-/

namespace RemoteBridge

open Unicode Machine

/-! ## Expiry -/

/-- One of the relay servers has a credential that expires later than this. -/
def Usable (iceServers : List IceServerConfig) (now : Nat) : Prop :=
  ∃ server ∈ iceServers, ∃ expiry, server.username = some (turnUsername expiry) ∧
    now < expiry * 10 ^ 9

theorem turnUsername_inj {expiry expiry' : Nat} (h : turnUsername expiry = turnUsername expiry') :
    expiry = expiry' := by
  have htext := List.append_cancel_right h
  have hdigits : Nat.toDigits 10 expiry = Nat.toDigits 10 expiry' := by
    rw [← Nat.toList_repr, ← Nat.toList_repr]
    exact List.map_injective_iff.mpr (fun _ _ => Char.toNat_inj.mp) htext
  rw [← Nat.ofDigitChars_ten_toDigits (n := expiry), hdigits, Nat.ofDigitChars_ten_toDigits]

/-- A credential is usable for a day from when it was minted, to the second. -/
theorem usable_iff [TurnMac] {turnHost turnSecret : Text} (hturn : turnHost ≠ [] ∧ turnSecret ≠ [])
    {minted now : Nat} :
    Usable (configMessage turnHost turnSecret minted) now ↔
      unix now < unix minted + 24 * 3600 := by
  have hexpiry : unix (minted + turnCredentialTTL) = unix minted + 24 * 3600 :=
    Nat.add_mul_div_right _ _ (by decide)
  have hnow : unix now < unix (minted + turnCredentialTTL) ↔
      now < unix (minted + turnCredentialTTL) * 10 ^ 9 := Nat.div_lt_iff_lt_mul (by decide)
  rw [← hexpiry, hnow, configMessage, if_pos hturn]
  constructor
  · rintro ⟨server, hserver, expiry, husername, hlt⟩
    obtain rfl := List.mem_singleton.mp hserver
    rwa [turnUsername_inj (Option.some.inj husername)]
  · intro hlt
    exact ⟨_, List.mem_singleton.mpr rfl, _, rfl, hlt⟩

/-! ## What the host keeps -/

variable {S : Type}

/-- The host has its ICE servers. -/
def Point.Configured (p : Point S) : Prop := p ≠ .config ∧ p ≠ .returned

/-- The host gets its ICE servers once. -/
theorem Host.Step.keeps_configured [Sdp S] {h h' : Host S} {e : Host.Event S} (hstep : Step h e h')
    (hpoint : h'.point.Configured) :
    (h.point.Configured ∧ h'.serverIce = h.serverIce) ∨
      h.point = .config ∧ h'.point = .head ∧
        ∃ iceServers, e = .recv (.config iceServers) ∧ h'.serverIce = iceServers := by
  cases hstep
  case configured iceServers hconfig => exact .inr ⟨hconfig, rfl, iceServers, rfl, rfl⟩
  case skipped hconfig => exact absurd hconfig hpoint.1
  case lost | approveFailed | touchFailed => exact absurd rfl hpoint.2
  case page => exact .inl ⟨hpoint, rfl⟩
  all_goals exact .inl ⟨by simp_all [Point.Configured], rfl⟩

theorem Server.turn_step [TurnMac] {s s' : Server S} {e : Server.Event S}
    (hstep : (Server.machine S).step s e = some s') :
    s'.turnHost = s.turnHost ∧ s'.turnSecret = s.turnSecret := by
  cases e with
  | request role token upgraded =>
      obtain rfl := Option.some.inj hstep
      rcases s.handleWS_eq role token upgraded with ⟨reply, -, heq⟩ | ⟨accepted, -, heq⟩ <;>
        rw [heq] <;> exact ⟨rfl, rfl⟩
  | register | relay | unregister =>
      obtain ⟨c, -, rfl⟩ := Option.map_eq_some_iff.mp hstep
      exact ⟨rfl, rfl⟩

namespace Signaling

variable [TurnMac] [Sdp S] {n n' : Signaling S} {turnHost turnSecret : Text}

/-- The host's ICE servers are the ones minted when its connection was registered. -/
structure Minted (turnHost turnSecret : Text) (n : Signaling S) : Prop where
  turn : n.server.turnHost = turnHost ∧ n.server.turnSecret = turnSecret
  serverIce : n.host.point.Configured → ∃ i c now, n.conn = some i ∧
    n.server.conns[i]? = some c ∧ c.handler ≠ .opening ∧ c.registered = some now ∧
    n.host.serverIce = configMessage turnHost turnSecret now

omit [Sdp S] in
/-- A step of the server leaves the host's connection registered as it was. -/
theorem Minted.serve {e : Server.Event S} {server : Server S} {taken : Nat}
    (h : Minted turnHost turnSecret n)
    (hstep : (Server.machine S).step n.server e = some server) :
    Minted turnHost turnSecret { n with server, taken } := by
  obtain ⟨hhost, hsecret⟩ := Server.turn_step hstep
  refine ⟨⟨hhost.trans h.turn.1, hsecret.trans h.turn.2⟩, fun hpoint => ?_⟩
  obtain ⟨i, c, now, hconn, hc, hserving, hnow, hice⟩ := h.serverIce hpoint
  obtain ⟨c', hc', htakes⟩ := Server.exists_takes hstep hc
  obtain ⟨hserving', hregistered⟩ := htakes.registered hserving
  exact ⟨i, c', now, hconn, hc', hserving', hregistered.trans hnow, hice⟩

/-- **One step** keeps the ICE servers. -/
theorem Step.minted {e : Event S} (hstep : Step n e n') (hinv : Sound n)
    (h : Minted turnHost turnSecret n) : Minted turnHost turnSecret n' := by
  cases hstep with
  | waited => exact ⟨h.turn, h.serverIce⟩
  | refused => exact h
  | accepted token upgraded server hconn hstep =>
      have hserve : Minted turnHost turnSecret { n with server, taken := n.taken } := h.serve hstep
      refine ⟨hserve.turn, fun hpoint => ?_⟩
      obtain ⟨i, c, now, hconn', -⟩ := h.serverIce hpoint
      rw [hconn] at hconn'
      contradiction
  | served e server _ hstep => exact h.serve hstep
  | relayed ok conn offer session server _ hstep => exact h.serve hstep
  | received message rest host hunread hstep =>
      refine ⟨h.turn, fun hpoint => ?_⟩
      rcases (Host.step_of_eq hstep).keeps_configured hpoint with
        ⟨hpoint', hice⟩ | ⟨hconfig, -, iceServers, heq, hice⟩
      · rw [hice]
        exact h.serverIce hpoint'
      · obtain ⟨i, c, now, hconn, hc, hserving, hnow, hmessage⟩ :=
          hinv.first (hinv.config hconfig) hunread
        cases heq
        rw [h.turn.1, h.turn.2] at hmessage
        cases hmessage
        exact ⟨i, c, now, hconn, hc, hserving, hnow, hice⟩
  | moved e host hother hstep =>
      refine ⟨h.turn, fun hpoint => ?_⟩
      rcases (Host.step_of_eq hstep).keeps_configured hpoint with
        ⟨hpoint', hice⟩ | ⟨-, -, iceServers, heq, -⟩
      · rw [hice]
        exact h.serverIce hpoint'
      · exact absurd heq (hother _)

/-! ## Every run -/

/-- A viewer's joining has the host call `start_session`. -/
def CallsStart (n : Signaling S) (e : Event S) : Prop :=
  n.host.point ≠ .start ∧ ∃ n', (machine S).step n e = some n' ∧ n'.host.point = .start

instance [DecidableEq S] (n : Signaling S) (e : Event S) : Decidable (CallsStart n e) :=
  decidable_of_iff (n.host.point ≠ .start ∧
      ((machine S).step n e).any fun n' => n'.host.point = .start) (by
    simp [CallsStart, Option.any_eq_true])

/-- When the host's connection was registered. -/
def registered (n : Signaling S) : Option Nat :=
  (n.conn.bind (n.server.conns[·]?)).bind (·.registered)

/-- The host's connection was registered less than a day ago, to the second. -/
def Fresh (n : Signaling S) : Prop :=
  ∃ now, n.registered = some now ∧ unix n.clock < unix now + 24 * 3600

instance (n : Signaling S) : Decidable (Fresh n) :=
  decidable_of_iff (n.registered.any fun now => unix n.clock < unix now + 24 * 3600) (by
    simp [Fresh, Option.any_eq_true])

/-- The host that calls `start_session` has its ICE servers. -/
theorem CallsStart.configured {e : Event S} (h : CallsStart n e) : n.host.point.Configured := by
  obtain ⟨hpoint, n', hstep, hstart⟩ := h
  have hconfigured : n'.host.point.Configured := by
    rw [hstart]
    exact ⟨by simp, by simp⟩
  have hhost : ∀ {e : Host.Event S} {host : Host S},
      (Host.machine S).step n.host e = some host → host.point = .start →
      n.host.point.Configured := by
    intro e host hstep hstart
    rcases (Host.step_of_eq hstep).keeps_configured (by rw [hstart]; exact ⟨by simp, by simp⟩) with
      ⟨hpoint', -⟩ | ⟨-, hhead, -⟩
    · exact hpoint'
    · rw [hstart] at hhead
      contradiction
  cases step_of_eq hstep with
  | waited | refused | accepted | served | relayed => exact hconfigured
  | received message rest host _ hhostStep => exact hhost hhostStep hstart
  | moved e host _ hhostStep => exact hhost hhostStep hstart

/-- **Sessions are started with a usable credential** exactly while the host's
connection is less than a day old. -/
theorem usable_along_iff {token turnHost turnSecret key hostFp : Text} {paired : PairedDevices}
    {es : List (Event S)} (hturn : turnHost ≠ [] ∧ turnSecret ≠ []) :
    (machine S).Along (init token turnHost turnSecret key hostFp paired) es
        (fun n e => CallsStart n e → Usable n.host.serverIce n.clock) ↔
      (machine S).Along (init token turnHost turnSecret key hostFp paired) es
        (fun n e => CallsStart n e → Fresh n) := by
  have hiff : ∀ es₁ n e, (machine S).Run (init token turnHost turnSecret key hostFp paired) es₁ n →
      CallsStart n e → (Usable n.host.serverIce n.clock ↔ Fresh n) := by
    intro es₁ n e hrun hcalls
    have hminted : Sound n ∧ Minted turnHost turnSecret n := by
      refine hrun.invariant (I := fun n => Sound n ∧ Minted turnHost turnSecret n)
        ⟨sound_init token turnHost turnSecret key hostFp paired, ⟨rfl, rfl⟩, fun hpoint => ?_⟩ ?_
      · exact absurd rfl hpoint.1
      · rintro n e n' ⟨hinv, hminted⟩ hstep
        exact ⟨(step_of_eq hstep).sound hinv, (step_of_eq hstep).minted hinv hminted⟩
    obtain ⟨i, c, now, hconn, hc, -, hnow, hice⟩ := hminted.2.serverIce hcalls.configured
    have hregistered : n.registered = some now := by simp [registered, hconn, hc, hnow]
    rw [hice, usable_iff hturn, Fresh, hregistered]
    simp
  constructor
  · intro h es₁ e es₂ n heq hrun hcalls
    exact (hiff es₁ n e hrun hcalls).mp (h es₁ e es₂ n heq hrun hcalls)
  · intro h es₁ e es₂ n heq hrun hcalls
    exact (hiff es₁ n e hrun hcalls).mpr (h es₁ e es₂ n heq hrun hcalls)

/-! ## Short runs -/

/-- A host connects, and a viewer this much later. -/
def viewerAfter (d : Nat) : List (Event Text) :=
  [.dial [] true, .server (.register .host 0 0 Server.allOk), .hostRecv, .wait d,
    .server (.request (text "viewer") [] true), .server (.register .viewer 1 d Server.allOk),
    .hostRecv, .host Host.goOn]

omit [TurnMac] [Sdp S] in
/-- `usable_along_iff` for a viewer that joins an hour after the host. -/
theorem usable_along_iff_hour :
    letI : TurnMac := ⟨fun _ _ => []⟩
    (machine Text).Along (init [] (text "turn:3478") (text "s") [] [] ⟨[], ⟨none, none⟩⟩)
      (viewerAfter (3600 * 10 ^ 9)) (fun n e => CallsStart n e → Usable n.host.serverIce n.clock) ∧
    (machine Text).Occurs (init [] (text "turn:3478") (text "s") [] [] ⟨[], ⟨none, none⟩⟩)
      (viewerAfter (3600 * 10 ^ 9)) CallsStart := by
  have hfresh : letI : TurnMac := ⟨fun _ _ => []⟩
      (machine Text).Along (init [] (text "turn:3478") (text "s") [] [] ⟨[], ⟨none, none⟩⟩)
        (viewerAfter (3600 * 10 ^ 9)) (fun n e => CallsStart n e → Fresh n) := by
    decide +kernel
  refine ⟨?_, by decide +kernel⟩
  let _ : TurnMac := ⟨fun _ _ => []⟩
  exact (usable_along_iff ⟨by decide, by decide⟩).mpr hfresh

omit [TurnMac] [Sdp S] in
/-- A viewer joins a day after the host: the host starts a session with a
credential that has expired. -/
theorem expired_after_day :
    letI : TurnMac := ⟨fun _ _ => []⟩
    (machine Text).Occurs (init [] (text "turn:3478") (text "s") [] [] ⟨[], ⟨none, none⟩⟩)
      (viewerAfter (24 * 3600 * 10 ^ 9))
      fun n e => CallsStart n e ∧ ¬ Usable n.host.serverIce n.clock := by
  have hoccurs : letI : TurnMac := ⟨fun _ _ => []⟩
      (machine Text).Occurs (init [] (text "turn:3478") (text "s") [] [] ⟨[], ⟨none, none⟩⟩)
        (viewerAfter (24 * 3600 * 10 ^ 9)) fun n e => CallsStart n e ∧
          n.host.serverIce = configMessage (text "turn:3478") (text "s") 0 ∧
          n.clock = 24 * 3600 * 10 ^ 9 := by
    decide +kernel
  let _ : TurnMac := ⟨fun _ _ => []⟩
  obtain ⟨es₁, e, es₂, n, heq, hrun, hcalls, hice, hclock⟩ := hoccurs
  refine ⟨es₁, e, es₂, n, heq, hrun, hcalls, ?_⟩
  rw [hice, hclock, usable_iff ⟨by decide, by decide⟩]
  decide

end Signaling

end RemoteBridge
