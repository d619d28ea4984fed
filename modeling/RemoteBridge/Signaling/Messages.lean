import RemoteBridge.Hub.Server
import RemoteBridge.Injector.Parse

/-!
# Signaling.Messages

The signaling messages as the three programs write and read them: the server in Go, the host
with serde's readers and writers (`signaling.rs`), the page in JavaScript (`index.html`).
-/

namespace RemoteBridge

open Json (Decimals Body)
open Injector (literal)
open Unicode

/-! ## The server -/

/-- A string of Go's that is left out where it is empty. -/
def omitempty (name : Text) : Option Text → List (Text × Json)
  | none | some [] => []
  | some value => [(name, .string value)]

def iceServerJson (s : IceServerConfig) : Json :=
  .object ((text "urls", .array (s.urls.map .string)) ::
    (omitempty (text "username") s.username ++ omitempty (text "credential") s.credential))

def configJson (iceServers : List IceServerConfig) : Json :=
  literal (text "config") [(text "ice_servers", .array (iceServers.map iceServerJson))]

def viewerJoinedJson : Json := literal (text "viewer-joined") []

/-! ## The host -/

namespace SignalMessage

def serializeOption : Option Text → Json
  | none => .null
  | some t => .string t

def serializeIceServer (s : IceServerConfig) : Json :=
  .object [(text "urls", .array (s.urls.map .string)),
    (text "username", serializeOption s.username),
    (text "credential", serializeOption s.credential)]

/-- `serde_json::to_string` -/
def serialize : SignalMessage Text → Json
  | .config iceServers => literal (text "config")
      [(text "ice_servers", .array (iceServers.map serializeIceServer))]
  | .viewerJoined => literal (text "viewer-joined") []
  | .offer sdp session => literal (text "offer")
      [(text "sdp", .string sdp), (text "session", .number (.ofInt session.toNat))]
  | .answer sdp session => literal (text "answer")
      [(text "sdp", .string sdp), (text "session", .number (.ofInt session.toNat))]

/-- A field that may be left out. -/
def readDefault (field : Option Json) : Option (Option Text) :=
  match field with
  | none => some none
  | some json => json.toOption Json.toText

def readIceServer (json : Json) : Option IceServerConfig := do
  match ← (← json.body).fields [text "urls", text "username", text "credential"] with
  | [some urls, username, credential] =>
      return ⟨← urls.toList Json.toText, ← readDefault username, ← readDefault credential⟩
  | _ => none

def readConfig (body : Body) : Option (SignalMessage Text) := do
  match ← body.fields [text "ice_servers"] with
  | [some iceServers] => return .config (← iceServers.toList readIceServer)
  | _ => none

def readViewerJoined (body : Body) : Option (SignalMessage Text) := do
  let _ ← body.fields []
  return .viewerJoined

def readDescription (make : Text → UInt32 → SignalMessage Text) (body : Body) :
    Option (SignalMessage Text) := do
  match ← body.fields [text "sdp", text "session"] with
  | [some sdp, some session] => return make (← sdp.toText) (← session.u32)
  | _ => none

def variants : List (Text × (Body → Option (SignalMessage Text))) :=
  [(text "config", readConfig), (text "viewer-joined", readViewerJoined),
    (text "offer", readDescription .offer), (text "answer", readDescription .answer)]

/-- `serde_json::from_str` -/
def parse [SerdeJson] (json : Json) : Option (SignalMessage Text) := do
  if json.readable Json.depthLimit then
    let (name, body) ← json.tagged (text "type")
    (← variants.lookup name) body
  else none

end SignalMessage

/-- What a websocket gives next: a text frame, with the value its text writes if it does write
one, a frame of another kind, or an error. -/
inductive SocketItem where
  | text (json : Option Json)
  | other
  | error

/-- The next message, with what is left of the stream; none if it fails or ends before. -/
def SignalingClient.recv [SerdeJson] :
    List SocketItem → Option (SignalMessage Text × List SocketItem)
  | [] | .error :: _ => none
  | .text (some json) :: items =>
      match SignalMessage.parse json with
      | some message => some (message, items)
      | none => recv items
  | .text none :: items | .other :: items => recv items

/-! ## The page -/

namespace Viewer

/-- What `ws.onmessage` goes on with. -/
inductive Received where
  | config (iceServers : Json)
  | offer (sdp session : Option Json)

def received (json : Json) : Option Received :=
  match json.property (text "type") with
  | some (.string type) =>
      if type = text "config" then
        some (.config (Json.orElse (json.property (text "ice_servers")) (.array [])))
      else if type = text "offer" then
        some (.offer (json.property (text "sdp")) (json.property (text "session")))
      else none
  | _ => none

/-- An `RTCIceServer` of strings. -/
def rtcIceServer (json : Json) : Option IceServerConfig := do
  let urls ← match ← json.property (text "urls") with
    | .string url => some [url]
    | urls => urls.toList Json.toText
  let username ← (json.property (text "username")).mapM Json.toText
  let credential ← (json.property (text "credential")).mapM Json.toText
  return ⟨urls, username, credential⟩

/-- The list that the peer connection is made with. -/
def rtcIceServers (json : Json) : Option (List IceServerConfig) := json.toList rtcIceServer

/-- The text of an answer, `session` as the page has it from the offer. -/
def answerJson (decimals : Decimals) (sdp : Text) (session : Option Json) : Json :=
  literal (text "answer") ((text "sdp", .string sdp) ::
    (session.map fun session => (text "session", session.stringified decimals)).toList)

end Viewer

/-! ## Relay servers -/

/-- The strings of an entry. -/
def IceServerConfig.texts (s : IceServerConfig) : List Text :=
  s.urls ++ s.username.toList ++ s.credential.toList

/-- No username or credential that Go leaves out. -/
def IceServerConfig.Written (s : IceServerConfig) : Prop :=
  s.username ≠ some [] ∧ s.credential ≠ some []

variable {s : IceServerConfig} {iceServers : List IceServerConfig} {message : SignalMessage Text}
  {decimals : Decimals} {type sdp : Text} {session : UInt32}

theorem toList_urls (urls : List Text) :
    Json.toList Json.toText (.array (urls.map .string)) = some urls :=
  Json.toList_map fun _ _ => rfl

theorem omitempty_of_ne {name : Text} {value : Option Text} (h : value ≠ some []) :
    omitempty name value = (value.map fun t => (name, Json.string t)).toList := by
  match value, h with
  | none, _ => rfl
  | some (c :: t), _ => rfl

/-- The names of an entry's fields differ. -/
theorem iceServer_names :
    (text "urls" ≠ text "username" ∧ text "urls" ≠ text "credential" ∧
      text "username" ≠ text "credential") ∧
    text "username" ≠ text "urls" ∧ text "credential" ≠ text "urls" ∧
      text "credential" ≠ text "username" := by decide

theorem readIceServer_iceServerJson (h : s.Written) :
    SignalMessage.readIceServer (iceServerJson s) = some s := by
  obtain ⟨urls, username, credential⟩ := s
  rw [iceServerJson, omitempty_of_ne h.1, omitempty_of_ne h.2, SignalMessage.readIceServer]
  cases username <;> cases credential <;>
    simp [Json.body, Json.Body.fields, Json.field, iceServer_names, toList_urls,
      SignalMessage.readDefault, Json.toOption, Json.toText]

theorem readIceServer_serialize (s : IceServerConfig) :
    SignalMessage.readIceServer (SignalMessage.serializeIceServer s) = some s := by
  obtain ⟨urls, username, credential⟩ := s
  rw [SignalMessage.serializeIceServer, SignalMessage.readIceServer]
  cases username <;> cases credential <;>
    simp [Json.body, Json.Body.fields, Json.field, iceServer_names, toList_urls,
      SignalMessage.readDefault, Json.toOption, Json.toText, SignalMessage.serializeOption]

theorem rtcIceServer_iceServerJson (h : s.Written) :
    Viewer.rtcIceServer (iceServerJson s) = some s := by
  obtain ⟨urls, username, credential⟩ := s
  rw [iceServerJson, omitempty_of_ne h.1, omitempty_of_ne h.2, Viewer.rtcIceServer]
  cases username <;> cases credential <;>
    simp [Json.property, iceServer_names, toList_urls, Json.toText]

/-- An entry is nested two deep. -/
theorem readable_iceServerJson [SerdeJson] (h : ∀ t ∈ s.texts, WellFormed t) {depth : Nat} :
    Json.readable (depth + 2) (iceServerJson s) := by
  have homit (name : Text) (hname : WellFormed name) (value : Option Text)
      (hvalue : ∀ t ∈ value, WellFormed t) : ∀ e ∈ omitempty name value,
        WellFormed e.1 ∧ Json.readable (depth + 1) e.2 := by
    match value, hvalue with
    | none, _ | some [], _ => exact fun _ he => nomatch he
    | some (c :: t), hvalue =>
        show ∀ e ∈ [(name, Json.string (c :: t))], _
        rw [List.forall_mem_singleton]
        exact ⟨hname, by simpa using hvalue _ rfl⟩
  rw [iceServerJson, Json.readable_object, List.forall_mem_cons, List.forall_mem_append]
  refine ⟨⟨(by decide : WellFormed (text "urls")), ?_⟩, homit _ (by decide) _ fun t ht => h t ?_,
    homit _ (by decide) _ fun t ht => h t ?_⟩
  · rw [Json.readable_array, List.forall_mem_map]
    intro url hurl
    rw [Json.readable_string]
    exact decide_eq_true (h url (by simp [IceServerConfig.texts, hurl]))
  · simp [IceServerConfig.texts, Option.mem_toList.mpr ht]
  · simp [IceServerConfig.texts, Option.mem_toList.mpr ht]

theorem readable_serializeIceServer [SerdeJson] (h : ∀ t ∈ s.texts, WellFormed t) {depth : Nat} :
    Json.readable (depth + 2) (SignalMessage.serializeIceServer s) := by
  have hoption (value : Option Text) (hvalue : ∀ t ∈ value, WellFormed t) :
      Json.readable (depth + 1) (SignalMessage.serializeOption value) := by
    cases value with
    | none => exact Json.readable_null
    | some t => exact Json.readable_string.trans (decide_eq_true (hvalue t rfl))
  rw [SignalMessage.serializeIceServer, Json.readable_object]
  simp only [List.forall_mem_cons, List.not_mem_nil, false_implies, implies_true, and_true]
  refine ⟨⟨(by decide : WellFormed (text "urls")), ?_⟩,
    ⟨(by decide : WellFormed (text "username")), hoption _ fun t ht => h t ?_⟩,
    (by decide : WellFormed (text "credential")), hoption _ fun t ht => h t ?_⟩
  · rw [Json.readable_array, List.forall_mem_map]
    intro url hurl
    rw [Json.readable_string]
    exact decide_eq_true (h url (by simp [IceServerConfig.texts, hurl]))
  · simp [IceServerConfig.texts, Option.mem_toList.mpr ht]
  · simp [IceServerConfig.texts, Option.mem_toList.mpr ht]

/-! ## What the host reads -/

namespace SignalMessage

theorem parse_literal [SerdeJson] {read : Body → Option (SignalMessage Text)}
    {fields : List (Text × Json)} (hread : variants.lookup type = some read) (htype : WellFormed type)
    (hfields : ∀ e ∈ fields, WellFormed e.1 ∧ Json.readable 126 e.2)
    (hnames : text "type" ∉ fields.map Prod.fst) :
    parse (literal type fields) = read (.map fields) := by
  have hreadable : Json.readable Json.depthLimit (literal type fields) := by
    rw [Json.depthLimit, literal, Json.readable_object, List.forall_mem_cons]
    exact ⟨⟨(by decide : WellFormed (text "type")), by simpa using htype⟩, hfields⟩
  rw [parse, if_pos hreadable, literal, Json.tagged_cons hnames]
  simp [hread]

theorem parse_config [SerdeJson] {write : IceServerConfig → Json}
    (hread : ∀ s ∈ iceServers, readIceServer (write s) = some s)
    (hreadable : ∀ s ∈ iceServers, Json.readable 125 (write s)) :
    parse (literal (text "config") [(text "ice_servers", .array (iceServers.map write))]) =
      some (.config iceServers) := by
  have hfields : (Body.map [(text "ice_servers", .array (iceServers.map write))]).fields
      [text "ice_servers"] = some [some (.array (iceServers.map write))] :=
    Json.fields_map (by simp)
  rw [parse_literal rfl (by decide) ?_ (by simpa using by decide), readConfig, hfields]
  · simp [Json.toList_map hread]
  · rw [List.forall_mem_singleton, Json.readable_array, List.forall_mem_map]
    exact ⟨(by decide : WellFormed (text "ice_servers")), hreadable⟩

/-- A session number is a double. -/
theorem representable_session (session : UInt32) :
    Binary64.Representable (session.toNat : ℚ) := by
  have hlt := session.toNat_lt
  have habs : |(session.toNat : ℤ)| ≤ 2 ^ 53 := by
    rw [Nat.abs_cast]
    omega
  simpa using Binary64.representable_intCast habs

theorem nearest_session (session : UInt32) :
    Binary64.nearest session.toNat = .finite session.toNat (representable_session session) :=
  Binary64.nearest_of_representable _

theorem readDescription_eq {make : Text → UInt32 → SignalMessage Text} {body : Body}
    {sdp session : Json}
    (hfields : body.fields [text "sdp", text "session"] = some [some sdp, some session]) :
    readDescription make body =
      sdp.toText.bind fun sdp => session.u32.bind fun session => some (make sdp session) := by
  rw [readDescription, hfields]
  rfl

theorem parse_description [SerdeJson] {make : Text → UInt32 → SignalMessage Text}
    (hread : variants.lookup type = some (readDescription make)) (htype : WellFormed type)
    (hsdp : WellFormed sdp) :
    parse (literal type [(text "sdp", .string sdp),
        (text "session", .number (.ofInt session.toNat))]) = some (make sdp session) := by
  have hfields : (Body.map [(text "sdp", .string sdp),
      (text "session", .number (.ofInt session.toNat))]).fields [text "sdp", text "session"] =
      some [some (.string sdp), some (.number (.ofInt session.toNat))] :=
    Json.fields_map (by decide : [text "sdp", text "session"].Nodup)
  rw [parse_literal hread htype ?_ (by simpa using by decide), readDescription_eq hfields,
    Json.u32_toNat]
  · rfl
  · simp only [List.forall_mem_cons, List.not_mem_nil, false_implies, implies_true, and_true,
      Json.readable_string, Json.readable_number, decide_eq_true hsdp,
      Numeral.isInteger_toNat, Bool.true_or]
    decide

/-- The strings of a message. -/
def texts : SignalMessage Text → List Text
  | .config iceServers => iceServers.flatMap IceServerConfig.texts
  | .viewerJoined => []
  | .offer sdp _ | .answer sdp _ => [sdp]

/-- What the host writes is what it would read. -/
theorem parse_serialize [SerdeJson] (h : ∀ t ∈ message.texts, WellFormed t) :
    parse message.serialize = some message := by
  cases message with
  | config iceServers =>
      refine parse_config (fun s _ => readIceServer_serialize s) fun s hs => ?_
      exact readable_serializeIceServer fun t ht => h t (List.mem_flatMap.mpr ⟨s, hs, ht⟩)
  | viewerJoined =>
      rw [serialize, parse_literal rfl (by decide) (by simp) (by simp)]
      rfl
  | offer sdp session => exact parse_description rfl (by decide) (h sdp List.mem_cons_self)
  | answer sdp session => exact parse_description rfl (by decide) (h sdp List.mem_cons_self)

end SignalMessage

/-- A frame that `recv` passes over. -/
def SocketItem.Skipped [SerdeJson] : SocketItem → Prop
  | .text none | .other => True
  | .text (some json) => SignalMessage.parse json = none
  | .error => False

/-- The host finds a message behind whatever else there is. -/
theorem SignalingClient.recv_append [SerdeJson] {skipped items : List SocketItem} {json : Json}
    (hskipped : ∀ item ∈ skipped, item.Skipped) (h : SignalMessage.parse json = some message) :
    recv (skipped ++ .text (some json) :: items) = some (message, items) := by
  induction skipped with
  | nil => simp [recv, h]
  | cons item skipped ih =>
      have hrest := ih fun item hitem => hskipped item (List.mem_cons_of_mem _ hitem)
      have hhead := hskipped item List.mem_cons_self
      match item, hhead with
      | .text none, _ | .other, _ => exact hrest
      | .text (some other), hhead =>
          rw [List.cons_append, recv, hhead]
          exact hrest

/-! ## What the page reads -/

namespace Viewer

theorem received_config (h : ∀ s ∈ iceServers, s.Written) :
    ∃ servers, received (configJson iceServers) = some (.config servers) ∧
      rtcIceServers servers = some iceServers := by
  have hnames : text "ice_servers" ≠ text "type" := by decide
  have hread : rtcIceServers (.array (iceServers.map iceServerJson)) = some iceServers :=
    Json.toList_map fun s hs => rtcIceServer_iceServerJson (h s hs)
  refine ⟨_, ?_, hread⟩
  simp [received, configJson, literal, Json.property, Json.orElse, hnames]

theorem received_offer : received (SignalMessage.offer sdp session).serialize =
    some (.offer (some (.string sdp)) (some (.number (.ofInt session.toNat)))) := by
  have hnames : text "sdp" ≠ text "type" ∧ text "session" ≠ text "type" ∧
      text "session" ≠ text "sdp" := by decide
  have hkind : text "offer" ≠ text "config" := by decide
  simp [received, SignalMessage.serialize, literal, Json.property, hnames, hkind]

theorem parse_answerJson [SerdeJson] (hwhole : decimals.print session.toNat = .ofInt session.toNat)
    (hsdp : WellFormed sdp) :
    SignalMessage.parse (answerJson decimals sdp (some (.number (.ofInt session.toNat)))) =
      some (.answer sdp session) := by
  have hnumber : Json.stringified decimals (.number (.ofInt session.toNat)) =
      .number (.ofInt session.toNat) := by
    rw [Json.stringified, Numeral.value_ofInt, Int.cast_natCast, SignalMessage.nearest_session,
      Json.ofNumber, hwhole]
  rw [answerJson, Option.map_some, hnumber]
  exact SignalMessage.parse_description rfl (by decide) hsdp

end Viewer

/-! ## All three -/

theorem written_configMessage [TurnMac] {turnHost turnSecret : Text} {now : Nat}
    (hcredential : ∀ secret username, TurnMac.credential secret username ≠ []) :
    ∀ s ∈ configMessage turnHost turnSecret now, s.Written := by
  rw [configMessage]
  split
  · rw [List.forall_mem_singleton]
    refine ⟨fun h => ?_, fun h => hcredential _ _ (Option.some.inj h)⟩
    have hlabel : text ":remotebridge" = [] := (List.append_eq_nil_iff.mp (Option.some.inj h)).2
    exact absurd hlabel (by decide)
  · exact fun _ h => nomatch h

theorem wellFormed_configMessage [TurnMac] {turnHost turnSecret : Text} {now : Nat}
    (hhost : WellFormed turnHost)
    (hcredential : ∀ secret username, WellFormed (TurnMac.credential secret username)) :
    ∀ s ∈ configMessage turnHost turnSecret now, ∀ t ∈ s.texts, WellFormed t := by
  have happend {t u : Text} (ht : WellFormed t) (hu : WellFormed u) : WellFormed (t ++ u) := by
    rw [WellFormed, List.forall_mem_append]
    exact ⟨ht, hu⟩
  have hdigits (n : Nat) : WellFormed (text (toString n)) := by
    intro c hc
    obtain ⟨digit, -, rfl⟩ := List.mem_map.mp hc
    exact digit.valid
  rw [configMessage]
  split
  · rw [List.forall_mem_singleton]
    simp only [IceServerConfig.texts, List.cons_append, List.nil_append, Option.toList_some,
      List.forall_mem_cons, List.not_mem_nil, false_implies, implies_true, and_true]
    exact ⟨happend (by decide) hhost, happend (happend (by decide) hhost) (by decide),
      happend (happend (by decide) hhost) (by decide), happend (hdigits _) (by decide),
      hcredential _ _⟩
  · exact fun _ h => nomatch h

/-- **The three programs understand each other.**  The host and the page read the same relay
servers from what the server writes, and those it minted; the host reads its note that a viewer
joined, and the page passes over it; the page reads the host's offer and its number, whatever
that is, and the host reads the page's answer with the same number, behind whatever frames. -/
theorem signaling_understood [TurnMac] [SerdeJson] (decimals : Decimals)
    (hwhole : ∀ session : UInt32, decimals.print session.toNat = .ofInt session.toNat)
    (hcredential : ∀ secret username, TurnMac.credential secret username ≠ [] ∧
      WellFormed (TurnMac.credential secret username))
    {skipped : List SocketItem} (hskipped : ∀ item ∈ skipped, item.Skipped)
    (items : List SocketItem) :
    (∀ (turnHost turnSecret : Text) (now : Nat), WellFormed turnHost →
      SignalingClient.recv (skipped ++
          .text (some (configJson (configMessage turnHost turnSecret now))) :: items) =
        some (.config (configMessage turnHost turnSecret now), items) ∧
      ∃ servers, Viewer.received (configJson (configMessage turnHost turnSecret now)) =
          some (.config servers) ∧
        Viewer.rtcIceServers servers = some (configMessage turnHost turnSecret now)) ∧
    (SignalingClient.recv (skipped ++ .text (some viewerJoinedJson) :: items) =
        some (.viewerJoined, items) ∧
      Viewer.received viewerJoinedJson = none) ∧
    ∀ (sdp : Text) (session : UInt32), ∃ received,
      Viewer.received (SignalMessage.offer sdp session).serialize =
        some (.offer (some (.string sdp)) received) ∧
      ∀ answer, WellFormed answer →
        SignalingClient.recv (skipped ++
            .text (some (Viewer.answerJson decimals answer received)) :: items) =
          some (.answer answer session, items) := by
  refine ⟨fun turnHost turnSecret now hhost => ?_, ⟨?_, by decide +kernel⟩, fun sdp session => ?_⟩
  · have hwritten : ∀ s ∈ configMessage turnHost turnSecret now, s.Written :=
      written_configMessage fun secret username => (hcredential secret username).1
    have hformed : ∀ s ∈ configMessage turnHost turnSecret now, ∀ t ∈ s.texts, WellFormed t :=
      wellFormed_configMessage hhost fun secret username => (hcredential secret username).2
    refine ⟨SignalingClient.recv_append hskipped ?_, Viewer.received_config hwritten⟩
    exact SignalMessage.parse_config (fun s hs => readIceServer_iceServerJson (hwritten s hs))
      fun s hs => readable_iceServerJson (hformed s hs)
  · exact SignalingClient.recv_append hskipped
      (@SignalMessage.parse_serialize .viewerJoined _ fun _ h => nomatch h)
  · exact ⟨_, Viewer.received_offer, fun answer hanswer => SignalingClient.recv_append hskipped
      (Viewer.parse_answerJson (hwhole session) hanswer)⟩

/-- The credential of a server with the secret `sesame` for a day from 1970 on. -/
abbrev sesameMac : TurnMac := ⟨fun _ _ => text "0HvIiVoh4/J+MX8S9VpPFiwVkNE="⟩

/-- The first session, and the last before the numbers start again, behind a ping. -/
theorem signaling_understood_first :
    letI := sesameMac
    letI := SerdeJson.nearest
    (SignalingClient.recv [.other, .text (some (configJson
        (configMessage (text "turn.example:3478") (text "sesame") 0)))]).isSome ∧
      SignalingClient.recv [.other, .text (some (Viewer.answerJson .exact (text "v=0")
        (some (.number (.ofInt (4294967295 : UInt32).toNat)))))] =
          some (.answer (text "v=0") 4294967295, []) := by
  let _ := sesameMac
  let _ := SerdeJson.nearest
  have hskipped : ∀ item ∈ [SocketItem.other], item.Skipped := by
    rw [List.forall_mem_singleton]
    trivial
  have hcredential (secret username : Text) : TurnMac.credential secret username ≠ [] ∧
      WellFormed (TurnMac.credential secret username) :=
    (by decide : text "0HvIiVoh4/J+MX8S9VpPFiwVkNE=" ≠ [] ∧ WellFormed (text "0HvIiVoh4/J+MX8S9VpPFiwVkNE="))
  obtain ⟨hconfig, -, hoffer⟩ := signaling_understood .exact (fun _ => Numeral.exact_natCast _)
    hcredential hskipped []
  refine ⟨?_, ?_⟩
  · have hrecv := (hconfig (text "turn.example:3478") (text "sesame") 0 (by decide)).1
    exact Option.isSome_of_eq_some hrecv
  · obtain ⟨received, hreceived, hanswer⟩ := hoffer (text "v=0") 4294967295
    rw [Viewer.received_offer] at hreceived
    obtain ⟨-, rfl⟩ := Viewer.Received.offer.inj (Option.some.inj hreceived)
    exact hanswer (text "v=0") (by decide)

end RemoteBridge
