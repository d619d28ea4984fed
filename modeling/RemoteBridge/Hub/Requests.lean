import RemoteBridge.Hub.Server
import RemoteBridge.Query

/-!
# Hub.Requests

The requests with which the host (`host_url`) and the viewer's page (`SIGNALING_URL`) come to
the signaling server, and what the server (`handleWS`) reads from them.
-/

namespace RemoteBridge

open Unicode Query

/-! ## The URLs -/

def isAsciiAlphanumeric (c : Nat) : Bool :=
  (48 ≤ c && c ≤ 57) || (65 ≤ c && c ≤ 90) || (97 ≤ c && c ≤ 122)

/-- The bytes `encodeURIComponent` leaves alone. -/
def uriUnescaped (b : UInt8) : Bool :=
  isAsciiAlphanumeric b.toNat || (text "-_.!~*'()").contains b.toNat

/-- `encodeURIComponent`, of a text without lone surrogates. -/
def encodeURIComponent (t : Text) : List UInt8 := escape uriUnescaped (encodeUtf8 t)

/-- `SIGNALING_URL` of a page that was served from this host. -/
def signalingUrl (secure : Bool) (host token : Text) : List UInt8 :=
  encodeUtf8 (text (if secure then "wss:" else "ws:") ++ text "//" ++ host ++
    text "/ws?role=viewer&token=") ++ encodeURIComponent token

/-- The bytes of a query that a browser leaves alone when it reads a URL. -/
def queryUnescaped (b : UInt8) : Bool :=
  33 ≤ b.toNat && b.toNat ≤ 126 && !(text "\"#<>'").contains b.toNat

inductive HostUrlError where
  /-- server must start with ws:// or wss:// -/
  | server (server : Text)
  /-- token may only contain letters, digits, '-' and '_' -/
  | token
deriving DecidableEq

def hostUrl (server : Text) (token : Option Text) : Except HostUrlError Text :=
  if ¬ ((text "ws://").isPrefixOf server || (text "wss://").isPrefixOf server) then
    .error (.server server)
  else
    let url := server.rdropWhile (· == 47) ++ text "/ws?role=host"
    match token.filter (· ≠ []) with
    | none => .ok url
    | some token =>
        if ¬ token.all fun c => isAsciiAlphanumeric c || c == 45 || c == 95 then .error .token
        else .ok (url ++ text "&token=" ++ token)

/-! ## The server's side -/

/-- The query of a request for a URL: what is between the first `?` and the fragment. -/
def rawQuery (url : List UInt8) : List UInt8 :=
  ((Fields.splitOnce 63 (url.takeWhile (· != 35))).map (·.2)).getD []

/-- `handleWS` on the bytes of the query, up to `register`. -/
def Server.handleRequest {S : Type} (s : Server S) (query : List UInt8) (upgraded : Bool) :
    Reply × Server S :=
  let params := Query.parse query
  let role := Query.get params (encodeUtf8 (text "role"))
  if role ≠ encodeUtf8 (text "host") ∧ role ≠ encodeUtf8 (text "viewer") then (.badRequest, s)
  else if ¬ (s.token = [] ∨
      Query.get params (encodeUtf8 (text "token")) = encodeUtf8 s.token) then (.unauthorized, s)
  else if ¬ upgraded then (.upgradeFailed, s)
  else
    let role := if role = encodeUtf8 (text "host") then Role.host else .viewer
    (.switchingProtocols, { s with conns := s.conns ++ [⟨role, .opening, false, [], none⟩] })

/-! ## What the server reads -/

theorem safe_uriUnescaped : Safe uriUnescaped :=
  ⟨by decide, by decide, by decide, by decide, by decide⟩

theorem safe_queryUnescaped : Safe fun b => uriUnescaped b && queryUnescaped b :=
  ⟨by decide, by decide, by decide, by decide, by decide⟩

/-- A browser does not escape escapes. -/
theorem queryUnescaped_of_hex {b : UInt8} (h : b = percent ∨ (hexValue b).isSome) :
    queryUnescaped b := by
  have hall : ∀ n < 256, UInt8.ofNat n = percent ∨ (hexValue (UInt8.ofNat n)).isSome →
      queryUnescaped (UInt8.ofNat n) := by decide +kernel
  have hb := hall b.toNat b.toNat_lt
  rw [UInt8.ofNat_toNat] at hb
  exact hb h

/-- The query of a URL whose first part has neither `?` nor `#`, and whose query has no `#`. -/
theorem rawQuery_append {base query : List UInt8} (hbase : 35 ∉ base ∧ 63 ∉ base)
    (hquery : 35 ∉ query) : rawQuery (base ++ 63 :: query) = query := by
  have htake : (base ++ 63 :: query).takeWhile (· != 35) = base ++ 63 :: query := by
    refine List.takeWhile_eq_self_iff.mpr fun b hb => ?_
    have hne : b ≠ 35 := by
      rintro rfl
      simp [hbase.1, hquery] at hb
    simpa using hne
  have hsplit : Fields.splitOnce 63 (base ++ 63 :: query) = some (base, query) :=
    Fields.splitOnce_eq_some_iff.mpr ⟨rfl, hbase.2⟩
  rw [rawQuery, htake, hsplit, Option.map_some, Option.getD_some]

theorem notMem_encodeUtf8 {t : Text} {b : UInt8} (hb : b.toNat < 128) (h : b.toNat ∉ t) :
    b ∉ encodeUtf8 t := fun hmem => h (toNat_mem_of_mem_encodeUtf8 hb hmem)

section

variable {S : Type} {s : Server S} {server token url host role : Text} {upgraded : Bool}

theorem encodeUtf8_role (h : role = text "host" ∨ role = text "viewer") {name : Text}
    (hname : name = text "host" ∨ name = text "viewer") :
    encodeUtf8 role = encodeUtf8 name ↔ role = name := by
  rcases h with rfl | rfl <;> rcases hname with rfl | rfl <;> decide

/-- A request that names a role and a token. -/
theorem handleRequest_of_parse {query : List UInt8}
    (hrole : role = text "host" ∨ role = text "viewer") (htoken : WellFormed token)
    (hs : WellFormed s.token)
    (hparse : get (parse query) (encodeUtf8 (text "role")) = encodeUtf8 role ∧
      get (parse query) (encodeUtf8 (text "token")) = encodeUtf8 token) :
    s.handleRequest query upgraded = s.handleWS role token upgraded := by
  have hauthorized : (s.token = [] ∨ encodeUtf8 token = encodeUtf8 s.token) ↔
      s.authorized token = true := by
    rw [Server.authorized, Bool.or_eq_true, decide_eq_true_eq, decide_eq_true_eq]
    exact or_congr_right ⟨encodeUtf8_inj htoken hs, congrArg encodeUtf8⟩
  rw [Server.handleRequest, hparse.1, hparse.2, Server.handleWS, Role.parse]
  simp only [hauthorized, ne_eq, encodeUtf8_role hrole (.inl rfl), encodeUtf8_role hrole (.inr rfl)]
  rcases hrole with rfl | rfl
  · simp
  · have hne : text "viewer" ≠ text "host" := by decide
    simp [hne]

/-- The parameters of a client that names itself and its token. -/
def clientParams (role token : Text) : List (List UInt8 × List UInt8) :=
  [(encodeUtf8 (text "role"), encodeUtf8 role), (encodeUtf8 (text "token"), encodeUtf8 token)]

theorem write_clientParams (hrole : role = text "host" ∨ role = text "viewer") :
    write uriUnescaped (clientParams role token) =
      encodeUtf8 (text "role=" ++ role ++ text "&token=") ++ encodeURIComponent token := by
  have hkeys : escape uriUnescaped (encodeUtf8 (text "role")) = encodeUtf8 (text "role") ∧
      escape uriUnescaped (encodeUtf8 (text "token")) = encodeUtf8 (text "token") := by decide
  have hvalue : escape uriUnescaped (encodeUtf8 role) = encodeUtf8 role := by
    rcases hrole with rfl | rfl <;> decide
  have hwrite : write uriUnescaped (clientParams role token) =
      (encodeUtf8 (text "role") ++ equals :: encodeUtf8 role) ++
        ([ampersand] ++ (encodeUtf8 (text "token") ++ equals :: encodeURIComponent token)) := by
    simp [write, writePair, clientParams, hkeys, hvalue, encodeURIComponent, List.intercalate]
  have hrole' : encodeUtf8 (text "role=") = encodeUtf8 (text "role") ++ [equals] := by decide
  have htoken : encodeUtf8 (text "&token=") =
      [ampersand] ++ encodeUtf8 (text "token") ++ [equals] := by decide
  rw [hwrite, encodeUtf8_append, encodeUtf8_append, hrole', htoken]
  simp only [List.append_assoc, List.cons_append, List.nil_append]

theorem handleRequest_clientParams {keep : UInt8 → Bool} (hkeep : Safe keep)
    (hrole : role = text "host" ∨ role = text "viewer") (htoken : WellFormed token)
    (hs : WellFormed s.token) :
    s.handleRequest (write keep (clientParams role token)) upgraded =
      s.handleWS role token upgraded := by
  have hne : encodeUtf8 (text "role") ≠ encodeUtf8 (text "token") := by decide
  refine handleRequest_of_parse hrole htoken hs ?_
  rw [parse_write hkeep, clientParams]
  simp [Query.get, hne]

/-- What the host asks with where it has no token. -/
theorem handleRequest_host (hs : WellFormed s.token) :
    s.handleRequest (encodeUtf8 (text "role=host")) upgraded =
      s.handleWS (text "host") [] upgraded := by
  have hne : encodeUtf8 (text "role") ≠ encodeUtf8 (text "token") := by decide
  have hnil : encodeUtf8 [] = [] := rfl
  have hwrite : encodeUtf8 (text "role=host") =
      write uriUnescaped [(encodeUtf8 (text "role"), encodeUtf8 (text "host"))] := by decide
  refine handleRequest_of_parse (.inl rfl) (fun _ h => nomatch h) hs ?_
  rw [hwrite, parse_write safe_uriUnescaped]
  simp [Query.get, hne, hnil]

/-- A URL whose part before the query is plain. -/
theorem rawQuery_url {base : Text} {query : List UInt8} (hbase : 35 ∉ base ∧ 63 ∉ base)
    (hquery : 35 ∉ query) : rawQuery (encodeUtf8 (base ++ text "?") ++ query) = query := by
  have hmark : encodeUtf8 (text "?") = [63] := by decide
  rw [encodeUtf8_append, hmark, List.append_assoc, List.singleton_append]
  exact rawQuery_append
    ⟨notMem_encodeUtf8 (by decide) hbase.1, notMem_encodeUtf8 (by decide) hbase.2⟩ hquery

/-- A host's token only has characters that stand for themselves. -/
theorem hostUrl_eq_ok {token : Option Text} (h : hostUrl server token = .ok url) :
    (token.getD [] = [] ∧ url = server.rdropWhile (· == 47) ++ text "/ws?role=host") ∨
    (∀ c ∈ token.getD [], isAsciiAlphanumeric c ∨ c = 45 ∨ c = 95) ∧
      url = server.rdropWhile (· == 47) ++ text "/ws?role=host&token=" ++ token.getD [] := by
  have hjoin : text "/ws?role=host" ++ text "&token=" = text "/ws?role=host&token=" := by decide
  rw [hostUrl] at h
  split at h
  · contradiction
  · split at h
    · next hnone =>
        refine .inl ⟨?_, (Except.ok.inj h).symm⟩
        cases token with
        | none => rfl
        | some token => simpa using hnone
    · next t ht =>
        obtain ⟨rfl, -⟩ := Option.filter_eq_some_iff.mp ht
        split at h
        · contradiction
        · next hall =>
            refine .inr ⟨?_, ?_⟩
            · intro c hc
              have hkept := List.all_eq_true.mp (Classical.not_not.mp hall) c hc
              simpa [or_assoc] using hkept
            · rw [← Except.ok.inj h, List.append_assoc _ (text "/ws?role=host"), hjoin]
              rfl

theorem uriUnescaped_of_token {c : Nat} (h : isAsciiAlphanumeric c ∨ c = 45 ∨ c = 95) :
    c < 128 ∧ uriUnescaped (UInt8.ofNat c) := by
  have hlt : c < 128 := by
    simp only [isAsciiAlphanumeric, Bool.or_eq_true, Bool.and_eq_true, decide_eq_true_eq] at h
    omega
  have hval : (UInt8.ofNat c).toNat = c := by
    rw [UInt8.toNat_ofNat']
    omega
  refine ⟨hlt, ?_⟩
  rw [uriUnescaped, hval]
  rcases h with h | rfl | rfl
  · rw [h, Bool.true_or]
  · decide
  · decide

/-- Such a token is its own percent-encoding. -/
theorem encodeURIComponent_token (h : ∀ c ∈ token, isAsciiAlphanumeric c ∨ c = 45 ∨ c = 95) :
    WellFormed token ∧ encodeURIComponent token = encodeUtf8 token := by
  have hascii : IsAscii token := fun c hc => (uriUnescaped_of_token (h c hc)).1
  refine ⟨fun c hc => .inl (Nat.lt_trans (hascii c hc) (by decide)), ?_⟩
  refine escape_of_kept fun b hb => ?_
  rw [encodeUtf8_of_isAscii hascii] at hb
  obtain ⟨c, hc, rfl⟩ := List.mem_map.mp hb
  exact (uriUnescaped_of_token (h c hc)).2

/-- **Requests are read as they are meant.**  The server finds in the URL of a viewer's page the
token of the page, whatever characters are in it, and in the URL of a host the token the host was
given; so both are let in exactly where that token is the server's. -/
theorem handleRequest_urls (upgraded : Bool) (hs : WellFormed s.token) :
    (∀ (secure : Bool) (host token : Text), 35 ∉ host ∧ 63 ∉ host → WellFormed token →
      s.handleRequest (escape queryUnescaped (rawQuery (signalingUrl secure host token))) upgraded =
        s.handleWS (text "viewer") token upgraded) ∧
    ∀ (server : Text) (token : Option Text) (url : Text), 35 ∉ server ∧ 63 ∉ server →
      hostUrl server token = .ok url →
      s.handleRequest (rawQuery (encodeUtf8 url)) upgraded =
        s.handleWS (text "host") (token.getD []) upgraded := by
  have hsharp (role : Text) (hrole : role = text "host" ∨ role = text "viewer") (token : Text) :
      35 ∉ write uriUnescaped (clientParams role token) := by
    rw [write_clientParams hrole, List.mem_append, not_or]
    refine ⟨notMem_encodeUtf8 (by decide) ?_, notMem_escape (by decide) (by decide) (by decide)⟩
    rcases hrole with rfl | rfl <;> decide
  constructor
  · intro secure host token hhost htoken
    have hurl : signalingUrl secure host token =
        encodeUtf8 (text (if secure then "wss:" else "ws:") ++ text "//" ++ host ++ text "/ws" ++
          text "?") ++ write uriUnescaped (clientParams (text "viewer") token) := by
      have hpath : text "/ws?role=viewer&token=" =
          text "/ws" ++ text "?" ++ (text "role=" ++ text "viewer" ++ text "&token=") := by decide
      rw [write_clientParams (.inr rfl), signalingUrl, hpath]
      simp only [encodeUtf8_append, List.append_assoc]
    have hbase (c : Nat) (hc : c ∉ host) (hfixed : c ∉ text "wss:" ∧ c ∉ text "ws:" ∧
        c ∉ text "//" ∧ c ∉ text "/ws") :
        c ∉ text (if secure then "wss:" else "ws:") ++ text "//" ++ host ++ text "/ws" := by
      cases secure <;> simp [hc, hfixed]
    rw [hurl, rawQuery_url ⟨hbase 35 hhost.1 (by decide), hbase 63 hhost.2 (by decide)⟩
      (hsharp _ (.inr rfl) token),
      escape_write (fun _ => queryUnescaped_of_hex) (by decide) (by decide)]
    exact handleRequest_clientParams safe_queryUnescaped (.inr rfl) htoken hs
  · intro server token url hserver hok
    have htrim (c : Nat) (hc : c ∉ server) (hfixed : c ∉ text "/ws") :
        c ∉ server.rdropWhile (· == 47) ++ text "/ws" := by
      have hsub : c ∉ server.rdropWhile (· == 47) := fun hmem =>
        hc ((List.rdropWhile_prefix _ _).subset hmem)
      simp [hsub, hfixed]
    have hbase := And.intro (htrim 35 hserver.1 (by decide)) (htrim 63 hserver.2 (by decide))
    rcases hostUrl_eq_ok hok with ⟨hnil, rfl⟩ | ⟨hkept, rfl⟩
    · have hpath : text "/ws?role=host" = text "/ws" ++ text "?" ++ text "role=host" := by decide
      rw [hpath, ← List.append_assoc, ← List.append_assoc, encodeUtf8_append,
        rawQuery_url hbase (by decide), hnil]
      exact handleRequest_host hs
    · have hpath : text "/ws?role=host&token=" =
          text "/ws" ++ text "?" ++ (text "role=" ++ text "host" ++ text "&token=") := by decide
      obtain ⟨hformed, henc⟩ := encodeURIComponent_token hkept
      have hurl : encodeUtf8 (server.rdropWhile (· == 47) ++ text "/ws?role=host&token=" ++
          token.getD []) = encodeUtf8 (server.rdropWhile (· == 47) ++ text "/ws" ++ text "?") ++
            write uriUnescaped (clientParams (text "host") (token.getD [])) := by
        rw [write_clientParams (.inl rfl), henc, hpath]
        simp only [encodeUtf8_append, List.append_assoc]
      rw [hurl, rawQuery_url hbase (hsharp _ (.inl rfl) _)]
      exact handleRequest_clientParams safe_uriUnescaped (.inl rfl) hformed hs

/-- A page opened with the token of the server, and a host that has another. -/
theorem handleRequest_urls_secret :
    hostUrl (text "ws://pi:8080/") (some (text "other")) =
      .ok (text "ws://pi:8080/ws?role=host&token=other") ∧
    ((Server.init (text "s&t") [] [] : Server Unit).handleRequest
        (escape queryUnescaped (rawQuery (signalingUrl true (text "pi") (text "s&t")))) true).1 =
      .switchingProtocols ∧
    ((Server.init (text "s&t") [] [] : Server Unit).handleRequest
        (rawQuery (encodeUtf8 (text "ws://pi:8080/ws?role=host&token=other"))) true).1 =
      .unauthorized := by
  have hurl : hostUrl (text "ws://pi:8080/") (some (text "other")) =
      .ok (text "ws://pi:8080/ws?role=host&token=other") := by decide
  obtain ⟨hviewer, hhost⟩ := handleRequest_urls true
    (show WellFormed (Server.init (text "s&t") [] [] : Server Unit).token by decide)
  refine ⟨hurl, ?_, ?_⟩
  · rw [hviewer true (text "pi") (text "s&t") (by decide) (by decide)]
    decide
  · rw [hhost (text "ws://pi:8080/") (some (text "other")) _ (by decide) hurl]
    decide

end

end RemoteBridge
