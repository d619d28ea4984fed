import RemoteBridge.Sessions.Connections

/-!
# Sessions.Offers

What the connections were made with: the offers of a host and the sessions they
are for.
-/

namespace RemoteBridge.Host

variable {S : Type} [Sdp S] {h h' : Host S} {e : Event S}

/-- The offer of the `i`-th connection and the session it was made for. -/
def offerOf (pcs : List (PeerConnection S)) (i : ConnectionId) : Option (S × UInt32) :=
  pcs[i]?.map fun pc => (pc.offer, pc.session)

omit [Sdp S] in
theorem offerOf_modify {pcs : List (PeerConnection S)} {i j : ConnectionId}
    {f : PeerConnection S → PeerConnection S}
    (hf : ∀ pc, ((f pc).offer, (f pc).session) = (pc.offer, pc.session)) :
    offerOf (pcs.modify j f) i = offerOf pcs i := by
  simp only [offerOf, List.getElem?_modify]
  cases pcs[i]? with
  | none => rfl
  | some pc => by_cases hij : j = i <;> simp [hij, hf]

omit [Sdp S] in
theorem offerOf_concat (pcs : List (PeerConnection S)) (pc : PeerConnection S) (i : ConnectionId) :
    offerOf (pcs ++ [pc]) i =
      if i = pcs.length then some (pc.offer, pc.session) else offerOf pcs i := by
  simp only [offerOf, List.getElem?_append, List.getElem?_singleton]
  grind

/-- A step that makes no offer: a current connection was so before it. -/
structure Keeps (h h' : Host S) : Prop where
  offers : h'.offers = h.offers
  offerOf : ∀ i, offerOf h'.pcs i = offerOf h.pcs i
  current : ∀ pc, h'.current = some pc → h.current = some pc ∧ h'.session = h.session

/-- `start_session` makes this offer for the current session, with a connection
that becomes the current one. -/
structure Makes (offer : S) (h : Host S) (e : Event S) (h' : Host S) : Prop where
  point : h.point = .start
  started : ∃ o, e = .resume o ∧ o.started = some offer
  offers : h'.offers = h.offers ++ [(offer, h.session)]
  offerOf : ∀ i, offerOf h'.pcs i =
    if i = h.pcs.length then some (offer, h.session) else offerOf h.pcs i
  current : h'.current = some h.pcs.length
  session : h'.session = h.session

/-- A step makes an offer or none. -/
theorem Step.keeps_or_makes (hstep : Step h e h') (hinv : Connected h) :
    Keeps h h' ∨ ∃ offer, Makes offer h e h' := by
  have hok := hinv.point
  cases hstep
  case applied pc sdp n o hpoint =>
    refine .inl ⟨rfl, fun i => offerOf_modify fun pc => ?_, fun pc hpc => ⟨hpc, rfl⟩⟩
    unfold PeerConnection.setRemote
    split <;> rfl
  case started offer o hpoint houtcome =>
    exact .inr ⟨offer, hpoint, ⟨o, rfl, houtcome⟩, rfl, offerOf_concat _ _, rfl, rfl⟩
  case page => exact .inl ⟨rfl, fun i => rfl, fun pc hpc => ⟨hpc, rfl⟩⟩
  -- the branches that leave a session have given up its connection
  all_goals
    refine .inl ⟨rfl, fun i => ?_, ?_⟩
    · first | rfl | exact offerOf_modify fun pc => rfl
    · grind [Point.Ok, leave, closePc]

end RemoteBridge.Host
