import ApiServer.Middleware

/-!
# The address of a client

Behind a proxy the address of a client is in `X-Forwarded-For`. The server believes the header only
if the connection comes from the proxy it is told to trust, and takes the last element of the first
line of that name. A proxy that adds a line of its own behind those of the client is not heard.
-/

namespace ApiServer
open Bytes

/-- The address the TCP connection comes from. -/
def peerAddress (req : Request) : Bytes :=
  if req.connected then serverGetClientIpFast req else bytes "unknown"

/-- The connection comes from the configured proxy. The text `unknown` stands for no address. -/
structure FromProxy (cfg : Config) (req : Request) : Prop where
  connected : req.connected = true
  peer : req.peer = some cfg.trustProxyIp.text
  configured : cfg.trustProxyIp.text ≠ []
  known : cfg.trustProxyIp.text ≠ bytes "unknown"

/-- An address that fits `INET6_ADDRSTRLEN` with its NUL. -/
structure IsAddress (a : Bytes) : Prop where
  length : a.length ≤ 45
  noComma : 44 ∉ a
  noSpace : 32 ∉ a
  noNul : 0 ∉ a

/-- The line the proxy has written: its own one, or one of the client's with the address behind it. -/
structure ProxyLine (a : Bytes) (line : Bytes × Bytes) : Prop where
  name : eqNoCase line.1 (bytes "X-Forwarded-For") = true
  value : line.2 = a ∨ ∃ v n, 0 ∉ v ∧ line.2 = v ++ 44 :: (List.replicate n 32 ++ a)

/-- The last element of a header value names this address, as far as the server looks at it. -/
def Names (v a : Bytes) : Prop :=
  v = a ∨ ∃ w n t, v = w ++ 44 :: (List.replicate n 32 ++ t) ∧ 44 ∉ t ∧ t.head? ≠ some 32 ∧
    t.take 45 = a

/-! ## The element that is taken -/

/-- What `server_extract_client_ip` takes from a header it believes. -/
def forwardedIp (xForwardedFor : Bytes) : Bytes :=
  match strrchr xForwardedFor 44 with
  | none => xForwardedFor
  | some lastComma => ((xForwardedFor.drop (lastComma + 1)).dropWhile (· == 32)).take 45

theorem forwardedIp_append (h : 44 ∉ t) (w : Bytes) :
    forwardedIp (w ++ 44 :: t) = (t.dropWhile (· == 32)).take 45 := by
  have hdrop : (w ++ 44 :: t).drop (w.length + 1) = t := by
    rw [List.drop_append, List.drop_eq_nil_of_le (Nat.le_succ _), Nat.add_sub_cancel_left]
    rfl
  rw [forwardedIp, strrchr_append h]
  dsimp only
  rw [hdrop]

theorem dropWhile_spaces {t : Bytes} (h : t.head? ≠ some 32) (n : Nat) :
    (List.replicate n 32 ++ t).dropWhile (· == 32) = t := by
  have hspaces : ∀ c ∈ List.replicate n (32 : UInt8), (c == 32) = true := fun c hc => by
    rw [List.eq_of_mem_replicate hc]
    rfl
  rw [List.dropWhile_append_of_pos hspaces]
  cases t with
  | nil => rfl
  | cons c t =>
    have hc : c ≠ 32 := fun he => h (congrArg some he)
    simp [hc]

theorem exists_spaces (t : Bytes) :
    ∃ n t', t = List.replicate n 32 ++ t' ∧ t'.head? ≠ some 32 := by
  induction t with
  | nil => exact ⟨0, [], rfl, nofun⟩
  | cons c t ih =>
    by_cases hc : c = 32
    · obtain ⟨n, t', rfl, hhead⟩ := ih
      exact ⟨n + 1, t', by rw [hc]; rfl, hhead⟩
    · exact ⟨0, c :: t, rfl, fun he => hc (Option.some.inj he)⟩

theorem forwardedIp_eq_iff (ha : 44 ∉ a) (v : Bytes) : forwardedIp v = a ↔ Names v a := by
  by_cases hcomma : 44 ∈ v
  · obtain ⟨w, t, rfl, ht⟩ := exists_last hcomma
    obtain ⟨n, t', rfl, hhead⟩ := exists_spaces t
    have ht' : 44 ∉ t' := fun h => ht (List.mem_append_right _ h)
    rw [forwardedIp_append ht, dropWhile_spaces hhead]
    constructor
    · exact fun h => .inr ⟨w, n, t', rfl, ht', hhead, h⟩
    · rintro (h | ⟨w', n', t'', heq, hcomma', hhead', htake⟩)
      · exact absurd (h ▸ hcomma) ha
      · have ht'' : 44 ∉ List.replicate n' (32 : UInt8) ++ t'' := fun h =>
          (List.mem_append.mp h).elim (fun h => absurd (List.eq_of_mem_replicate h) (by decide)) hcomma'
        obtain ⟨-, hrest⟩ := last_unique ht ht'' heq
        have hsame := congrArg (List.dropWhile (· == 32)) hrest
        rw [dropWhile_spaces hhead, dropWhile_spaces hhead'] at hsame
        rw [hsame, htake]
  · have hnone : forwardedIp v = v := by rw [forwardedIp, strrchr_eq_none.mpr hcomma]
    rw [hnone]
    constructor
    · exact .inl
    · rintro (h | ⟨w, n, t, heq, -⟩)
      · exact h
      · exact absurd (by rw [heq]; simp) hcomma

/-! ## Peers and headers -/

theorem isTrustedProxy_of_ne {cfg : Config} {req : Request}
    (h : peerAddress req ≠ cfg.trustProxyIp.text) : isTrustedProxy cfg req = false := by
  unfold isTrustedProxy
  unfold peerAddress at h
  cases hcon : req.connected with
  | false => rfl
  | true =>
    rw [hcon, if_pos rfl] at h
    simp [h]

/-- Nothing that a peer without trust sends has any influence. -/
theorem serverExtractClientIp_peer {cfg : Config} {req : Request}
    (h : isTrustedProxy cfg req = false) : serverExtractClientIp cfg req = peerAddress req := by
  unfold serverExtractClientIp peerAddress
  dsimp only
  split
  · rfl
  · rw [h]
    rfl

theorem FromProxy.trusted {cfg : Config} {req : Request} (h : FromProxy cfg req) :
    isTrustedProxy cfg req = true := by
  have hpeer : serverGetClientIpFast req = cfg.trustProxyIp.text := by
    rw [serverGetClientIpFast, h.peer]
    exact if_neg h.configured
  simp [isTrustedProxy, h.connected, hpeer, h.configured, h.known]

theorem serverExtractClientIp_trusted {cfg : Config} {req : Request} {v : Bytes}
    (h : isTrustedProxy cfg req = true)
    (hfind : evhttpFindHeader req.inputHeaders (bytes "X-Forwarded-For") = some v) :
    serverExtractClientIp cfg req = forwardedIp v := by
  unfold serverExtractClientIp
  rw [hfind, h]
  rfl

theorem ProxyLine.names {a : Bytes} {line : Bytes × Bytes} (h : ProxyLine a line)
    (ha : IsAddress a) : Names (cstr line.2) a := by
  obtain hv | ⟨v, n, hnul, hv⟩ := h.value
  · rw [hv, cstr_eq_self ha.noNul]
    exact .inl rfl
  · have hnul' : 0 ∉ line.2 := by
      rw [hv]
      simp [hnul, ha.noNul]
    rw [cstr_eq_self hnul', hv]
    refine .inr ⟨v, n, a, rfl, ha.noComma, fun h => ?_, List.take_of_length_le ha.length⟩
    exact ha.noSpace (List.mem_of_head? h)

/-- The first line of a name is one in front of a given line of that name, or that line. -/
theorem evhttpFindHeader_append {key : Bytes} {line : Bytes × Bytes}
    (h : eqNoCase line.1 key = true) (pre post : Headers) :
    evhttpFindHeader (pre ++ line :: post) key =
      (evhttpFindHeader pre key).or (some (cstr line.2)) := by
  have hline : (line :: post).find? (eqNoCase ·.1 key) = some line := List.find?_cons_of_pos h
  unfold evhttpFindHeader
  rw [List.find?_append, hline]
  cases pre.find? (eqNoCase ·.1 key) <;> rfl

/-- From a peer that is not the proxy the server takes the peer's address, whatever the headers are.
From the proxy it takes the address `a` the proxy has written, if and only if no line of the client
stands in front of the proxy's, or the first one of these names `a` too. -/
theorem clientIp_unforgeable_iff (cfg : Config) (req : Request) :
    (peerAddress req ≠ cfg.trustProxyIp.text →
      ∀ headers, serverExtractClientIp cfg { req with inputHeaders := headers } = peerAddress req) ∧
    ∀ a pre line post, FromProxy cfg req → IsAddress a → ProxyLine a line →
      req.inputHeaders = pre ++ line :: post →
      (serverExtractClientIp cfg req = a ↔
        ∀ v, evhttpFindHeader pre (bytes "X-Forwarded-For") = some v → Names v a) := by
  constructor
  · intro h headers
    exact serverExtractClientIp_peer
      (isTrustedProxy_of_ne (show peerAddress { req with inputHeaders := headers } ≠ _ from h))
  · intro a pre line post hproxy ha hline hheaders
    have hfind := evhttpFindHeader_append hline.name pre post
    rw [← hheaders] at hfind
    cases hpre : evhttpFindHeader pre (bytes "X-Forwarded-For") with
    | none =>
      rw [hpre] at hfind
      rw [serverExtractClientIp_trusted hproxy.trusted hfind, forwardedIp_eq_iff ha.noComma]
      exact ⟨fun _ => nofun, fun _ => hline.names ha⟩
    | some v =>
      rw [hpre] at hfind
      rw [serverExtractClientIp_trusted hproxy.trusted hfind, forwardedIp_eq_iff ha.noComma]
      exact ⟨fun h _ hv => Option.some.inj hv ▸ h, fun h => h v rfl⟩

def proxyConfig : Config := { trustProxyIp := .strlcpy 1024 (bytes "127.0.0.1") }

/-- A request that comes from a proxy on the same host. -/
def proxiedRequest (headers : Headers) : Request where
  peer := some (bytes "127.0.0.1")
  command := .get
  uri := bytes "/shippers"
  inputHeaders := headers

theorem fromProxy_proxiedRequest (headers : Headers) :
    FromProxy proxyConfig (proxiedRequest headers) :=
  ⟨rfl, rfl, by decide, by decide⟩

theorem isAddress_client : IsAddress (bytes "203.0.113.9") :=
  ⟨by decide, by decide, by decide, by decide⟩

/-- The proxy has appended the address to what the client sent. -/
theorem clientIp_unforgeable_appended :
    serverExtractClientIp proxyConfig
      (proxiedRequest [(bytes "x-forwarded-for", bytes "6.6.6.6, 203.0.113.9")]) =
        bytes "203.0.113.9" := by
  have hline : ProxyLine (bytes "203.0.113.9")
      (bytes "x-forwarded-for", bytes "6.6.6.6, 203.0.113.9") :=
    ⟨by decide, .inr ⟨bytes "6.6.6.6", 1, by decide, rfl⟩⟩
  exact ((clientIp_unforgeable_iff proxyConfig _).2 _ [] _ [] (fromProxy_proxiedRequest _)
    isAddress_client hline rfl).mpr nofun

/-- The proxy has added a line, and the server takes the address the client has made up. -/
theorem clientIp_forged :
    let forged : Bytes × Bytes := (bytes "X-Forwarded-For", bytes "6.6.6.6")
    let line : Bytes × Bytes := (bytes "X-Forwarded-For", bytes "203.0.113.9")
    FromProxy proxyConfig (proxiedRequest ([forged] ++ line :: [])) ∧
      IsAddress (bytes "203.0.113.9") ∧ ProxyLine (bytes "203.0.113.9") line ∧
      serverExtractClientIp proxyConfig (proxiedRequest ([forged] ++ line :: [])) = bytes "6.6.6.6" ∧
      bytes "6.6.6.6" ≠ bytes "203.0.113.9" :=
  ⟨fromProxy_proxiedRequest _, isAddress_client, ⟨by decide, .inl rfl⟩, by decide, by decide⟩

end ApiServer
