import Nfrp.Client.Session
import Nfrp.Client.WorkConn
import Nfrp.Proxy.Pipe
import Nfrp.Server.Auth
import Nfrp.Server.Register

/-!
# The two ends of a data channel

The client decides with its own configuration what it does to the bytes of a work
connection; the server decides with what the proxy was registered with, and in another
place for each type of proxy.
-/

namespace Nfrp

open Lib Nfrp.Client

inductive Way where
  | startup
  | store
  | panelAdd
  | webAdd
  deriving DecidableEq, Repr

/-- A login says what the whole client wants, and nothing else does. -/
def Way.announcement (cfg : ClientConfig) (p : ProxyConfig) : Way → NewProxy
  | startup | store => { cfg.announce p with }
  | panelAdd | webAdd => Proxies.wire cfg.user p

def Way.announces (way : Way) (cfg : ClientConfig) (p : ProxyConfig) : Bool × Bool :=
  match way with
  | startup | store => (effEnc cfg p, effComp cfg p)
  | panelAdd | webAdd => (p.useEncryption, p.useCompression)

def Proxies.proxyFlags (s : Proxies) (name : String) : Bool × Bool :=
  ((s.entries.lookup name).map fun e => (e.useEncryption, e.useCompression)).getD (false, false)

/-- What goes with a user to where it is joined to a work connection. -/
structure UserFlags where
  useEncryption : Bool
  useCompression : Bool
  dataKey : Option Block

section

variable (hmacSha1 : List UInt8 → List UInt8 → Vector UInt8 20) (token : String)

def acceptedUser (flags : Bool × Bool) : UserFlags where
  useEncryption := flags.1
  useCompression := flags.2
  dataKey := if flags.1 then some (deriveKey hmacSha1 (bytesOf token)) else none

def visitorUser : UserFlags where
  useEncryption := false
  useCompression := false
  dataKey := none

def bridge (u : UserFlags) : Transform Block :=
  if u.useEncryption || u.useCompression then ⟨u.dataKey, u.useCompression⟩ else .plain

def wrapWorkStream (flags : Bool × Bool) : Transform Block :=
  if !flags.1 && !flags.2 then .plain
  else ⟨if flags.1 then some (deriveKey hmacSha1 (bytesOf token)) else none, flags.2⟩

def isVirtualHost (ty : String) : Bool := ty == "http" || ty == "https" || ty == "tcpmux"

/-- The types whose users come through a visitor and are relayed. -/
def isRelayed (ty : String) : Bool := ty == "stcp" || ty == "xtcp"

def serverEnd (s : Proxies) (name ty : String) : Option (Transform Block) :=
  if ty = "tcp" then some (bridge (acceptedUser hmacSha1 token (s.proxyFlags name)))
  else if isVirtualHost ty then some (wrapWorkStream hmacSha1 token (s.proxyFlags name))
  else if isRelayed ty then some (bridge visitorUser)
  else none

end

/-- What both ends do; a visitor does nothing to the bytes it relays. -/
structure Channel where
  client : WorkConn
  server : Transform Block

namespace Channel

variable (c : Ciphers Block (List UInt8))

/-- What the server puts on the work connection of what the user says. -/
def serverSent (ch : Channel) (text : List UInt8) : List UInt8 :=
  if ch.server.key.isSome ∨ ch.server.compress then (c.coding ch.server).encode text else text

/-- What comes to the user, of which `leftover` was read with the handshake. -/
def serverReceived (ch : Channel) (leftover rest : List UInt8) : List UInt8 :=
  if ch.server.key.isSome ∨ ch.server.compress then (c.coding ch.server).decode (leftover ++ rest) else leftover ++ rest

/-- Whatever the ciphers are, and wherever the handshake stopped reading. -/
def Transparent (ch : Channel) : Prop :=
  ∀ (c : Ciphers Block (List UInt8)) (text leftover rest : List UInt8),
    (leftover ++ rest = ch.serverSent c text → ch.client.received c leftover rest = text) ∧
      (leftover ++ rest = ch.client.sent c text → ch.serverReceived c leftover rest = text)

end Channel

section

variable (serverConfigFromPem : String → String → Except String Unit)
  (hmacSha1 : List UInt8 → List UInt8 → Vector UInt8 20)

/-- `none` where no bytes are relayed. -/
def openChannel (cfg : ClientConfig) (p : ProxyConfig) (token : String) (s : Proxies) : Option Channel :=
  match workConnFlow serverConfigFromPem hmacSha1 cfg p with
  | .error _ => none
  | .ok client => (serverEnd hmacSha1 token s (addUserPrefix cfg.user p.name) p.proxyType).map (⟨client, ·⟩)

end

def Registered (cfg : ClientConfig) (p : ProxyConfig) (way : Way) (s : Proxies) : Prop :=
  ∃ e, s.entries.lookup (addUserPrefix cfg.user p.name) = some e ∧
    (e.useEncryption, e.useCompression) =
      ((way.announcement cfg p).useEncryption, (way.announcement cfg p).useCompression)

/-- Both ends do the same: with a plugin, and with a visitor, nothing; otherwise what was
announced has to be what the client does, under one key. -/
def Matched (hmacSha1 : List UInt8 → List UInt8 → Vector UInt8 20) (cfg : ClientConfig) (p : ProxyConfig) (way : Way)
    (token : String) : Prop :=
  if pluginKind p ≠ "" then ¬isUnixSocket p ∧ (isRelayed p.proxyType ∨ way.announces cfg p = (false, false))
  else if isRelayed p.proxyType then effEnc cfg p = false ∧ effComp cfg p = false
  else
    way.announces cfg p = (effEnc cfg p, effComp cfg p) ∧
      (effEnc cfg p → deriveKey hmacSha1 (bytesOf cfg.token) = deriveKey hmacSha1 (bytesOf token))

theorem NewProxy.flags_fromConfig (p : ProxyConfig) (user : String) :
    (NewProxy.fromConfig p user).useEncryption = p.useEncryption ∧
      (NewProxy.fromConfig p user).useCompression = p.useCompression := by
  simp only [NewProxy.fromConfig]
  repeat' split
  all_goals exact ⟨rfl, rfl⟩

theorem Way.flags_announcement (cfg : ClientConfig) (p : ProxyConfig) (way : Way) :
    ((way.announcement cfg p).useEncryption, (way.announcement cfg p).useCompression) = way.announces cfg p := by
  obtain ⟨encryption, compression⟩ := NewProxy.flags_fromConfig p cfg.user
  have atLogin : ((cfg.announce p).useEncryption, (cfg.announce p).useCompression) = (effEnc cfg p, effComp cfg p) := by
    rw [ClientConfig.announce, effEnc, effComp, ← encryption, ← compression]
  have later : ((NewProxy.fromConfig p cfg.user).useEncryption, (NewProxy.fromConfig p cfg.user).useCompression) =
      (p.useEncryption, p.useCompression) := by
    rw [encryption, compression]
  cases way with
  | startup => exact atLogin
  | store => exact atLogin
  | panelAdd => exact later
  | webAdd => exact later

variable {cfg : ClientConfig} {p : ProxyConfig} {way : Way} {s : Proxies}

theorem Registered.proxyFlags (registered : Registered cfg p way s) :
    s.proxyFlags (addUserPrefix cfg.user p.name) = way.announces cfg p := by
  obtain ⟨e, found, flags⟩ := registered
  rw [Proxies.proxyFlags, found]
  exact flags.trans (way.flags_announcement cfg p)

theorem Way.proxyName_announcement (cfg : ClientConfig) (p : ProxyConfig) (way : Way) :
    (way.announcement cfg p).proxyName = addUserPrefix cfg.user p.name := by
  cases way <;> exact NewProxy.proxyName_fromConfig p cfg.user

theorem registered_enter (cfg : ClientConfig) (p : ProxyConfig) (way : Way) (s : Proxies) (remoteAddr : String) :
    Registered cfg p way (s.enter (way.announcement cfg p) remoteAddr) := by
  rw [Registered, Proxies.enter, way.proxyName_announcement]
  exact ⟨_, AList.lookup_insert _, rfl⟩

theorem encode_of_wraps (c : Ciphers Block (List UInt8)) (t : Transform Block) (text : List UInt8) :
    (if t.key.isSome ∨ t.compress then (c.coding t).encode text else text) = (c.coding t).encode text := by
  rcases t with ⟨_ | key, _ | _⟩ <;> rfl

theorem decode_of_wraps (c : Ciphers Block (List UInt8)) (t : Transform Block) (text : List UInt8) :
    (if t.key.isSome ∨ t.compress then (c.coding t).decode text else text) = (c.coding t).decode text := by
  rcases t with ⟨_ | key, _ | _⟩ <;> rfl

namespace Channel

theorem transparent_forward_iff {t u : Transform Block} : Transparent ⟨.forward t, u⟩ ↔ t = u := by
  constructor
  · intro transparent
    have undoes : t.Undoes (List UInt8) u := by
      intro c text
      have arrives := (transparent c text [] (serverSent c ⟨.forward t, u⟩ text)).1 rfl
      simpa only [serverSent, encode_of_wraps, WorkConn.received, decode_of_wraps, List.nil_append] using arrives
    exact Transform.undoes_iff.mp undoes
  · rintro rfl c text leftover rest
    simp only [serverSent, serverReceived, WorkConn.sent, WorkConn.received, encode_of_wraps, decode_of_wraps]
    refine ⟨fun arrived => ?_, fun arrived => ?_⟩
    · rw [arrived, (c.coding t).decode_encode]
    · rw [arrived, (c.coding t).decode_encode]

/-- A plugin takes the bytes as they are, and one of them not those that were read with
the handshake. -/
theorem transparent_plugin_iff {plugin : Plugin} {u : Transform Block} :
    Transparent ⟨.plugin plugin, u⟩ ↔ (∀ path, plugin ≠ .unixSocket path) ∧ u = .plain := by
  constructor
  · intro transparent
    have undoes : Transform.plain.Undoes (List UInt8) u := by
      intro c text
      have arrives := (transparent c text [] (serverSent c ⟨.plugin plugin, u⟩ text)).1 rfl
      simp only [serverSent, encode_of_wraps] at arrives
      cases plugin <;> exact arrives
    have isPlain : u = .plain := (Transform.undoes_iff.mp undoes).symm
    refine ⟨?_, isPlain⟩
    rintro path rfl
    rw [isPlain] at transparent
    cases (transparent ⟨fun _ => .identity, .identity⟩ [0] [0] []).1 rfl
  · rintro ⟨readsAll, rfl⟩ c text leftover rest
    refine ⟨fun arrived => ?_, fun arrived => ?_⟩
    · have isText : leftover ++ rest = text := arrived
      rw [← isText]
      cases plugin with
      | unixSocket path => exact absurd rfl (readsAll path)
      | httpProxy => rfl
      | socks5 => rfl
      | staticFile => rfl
      | bridge => rfl
    · exact arrived

end Channel

section

variable {hmacSha1 : List UInt8 → List UInt8 → Vector UInt8 20} {token : String}

def flagged (hmacSha1 : List UInt8 → List UInt8 → Vector UInt8 20) (token : String) (flags : Bool × Bool) :
    Transform Block :=
  ⟨if flags.1 then some (deriveKey hmacSha1 (bytesOf token)) else none, flags.2⟩

theorem bridge_acceptedUser (flags : Bool × Bool) :
    bridge (acceptedUser hmacSha1 token flags) = flagged hmacSha1 token flags := by
  rcases flags with ⟨_ | _, _ | _⟩ <;> rfl

theorem wrapWorkStream_eq (flags : Bool × Bool) : wrapWorkStream hmacSha1 token flags = flagged hmacSha1 token flags := by
  rcases flags with ⟨_ | _, _ | _⟩ <;> rfl

theorem flagged_eq_plain_iff {flags : Bool × Bool} : flagged hmacSha1 token flags = .plain ↔ flags = (false, false) := by
  rcases flags with ⟨_ | _, _ | _⟩ <;> simp [flagged, Transform.plain]

theorem flagged_eq_iff {other : String} {flags announced : Bool × Bool} :
    flagged hmacSha1 token flags = flagged hmacSha1 other announced ↔
      announced = flags ∧ (flags.1 → deriveKey hmacSha1 (bytesOf token) = deriveKey hmacSha1 (bytesOf other)) := by
  rcases flags with ⟨_ | _, compress⟩ <;> rcases announced with ⟨_ | _, compressed⟩ <;>
    simp [flagged, eq_comm, and_comm]

theorem serverEnd_cases {name ty : String} {u : Transform Block} (isEnd : serverEnd hmacSha1 token s name ty = some u) :
    isRelayed ty ∧ u = .plain ∨ ¬isRelayed ty ∧ u = flagged hmacSha1 token (s.proxyFlags name) := by
  rw [serverEnd] at isEnd
  split at isEnd
  next isTcp =>
    obtain rfl := Option.some.inj isEnd
    rw [isTcp]
    exact .inr ⟨by decide +kernel, bridge_acceptedUser _⟩
  next =>
    split at isEnd
    next virtualHost =>
      obtain rfl := Option.some.inj isEnd
      refine .inr ⟨?_, wrapWorkStream_eq _⟩
      simp only [isVirtualHost, Bool.or_eq_true, beq_iff_eq, or_assoc] at virtualHost
      rcases virtualHost with rfl | rfl | rfl <;> decide +kernel
    next =>
      split at isEnd
      next relayed =>
        obtain rfl := Option.some.inj isEnd
        exact .inl ⟨relayed, rfl⟩
      next => cases isEnd

theorem serverEnd_stream {ty : String} {u : Transform Block} {name : String}
    (isEnd : serverEnd hmacSha1 token s name ty = some u) : ty ≠ "udp" ∧ ty ≠ "sudp" := by
  constructor
  · rintro rfl
    cases isEnd
  · rintro rfl
    cases isEnd

end

variable {serverConfigFromPem : String → String → Except String Unit}
  {hmacSha1 : List UInt8 → List UInt8 → Vector UInt8 20} {token : String}

theorem fromProxy_kind {plugin : Plugin} (isPlugin : Plugin.fromProxy serverConfigFromPem p = some (.ok plugin)) :
    pluginKind p ≠ "" ∧ ((∀ path, plugin ≠ .unixSocket path) ↔ ¬isUnixSocket p) := by
  have named : pluginKind p ≠ "" := by
    intro unnamed
    cases (plugin_fromProxy_eq_none_iff.mpr unnamed).symm.trans isPlugin
  refine ⟨named, ?_⟩
  have otherKind : ∀ kind, pluginKind p = kind → kind ≠ "unix_domain_socket" → kind ≠ "unixdomainsocket" →
      ¬isUnixSocket p := by
    rintro _ rfl notFirst notSecond
    simp [isUnixSocket, notFirst, notSecond]
  simp only [Plugin.fromProxy, if_neg named] at isPlugin
  split at isPlugin
  next isHttp =>
    obtain rfl := Except.ok.inj (Option.some.inj isPlugin)
    refine iff_of_true (by rintro _ ⟨⟩) ?_
    rcases isHttp with isKind | isKind <;> exact otherKind _ isKind (by decide) (by decide)
  next =>
    split at isPlugin
    next isSocks =>
      obtain rfl := Except.ok.inj (Option.some.inj isPlugin)
      exact iff_of_true (by rintro _ ⟨⟩) (otherKind _ isSocks (by decide) (by decide))
    next =>
      split at isPlugin
      next isStatic =>
        split at isPlugin
        next => cases isPlugin
        next =>
          obtain rfl := Except.ok.inj (Option.some.inj isPlugin)
          refine iff_of_true (by rintro _ ⟨⟩) ?_
          rcases isStatic with isKind | isKind <;> exact otherKind _ isKind (by decide) (by decide)
      next =>
        split at isPlugin
        next isUnix =>
          split at isPlugin
          next => cases isPlugin
          next =>
            obtain rfl := Except.ok.inj (Option.some.inj isPlugin)
            exact iff_of_false (fun none => none _ rfl) (not_not.mpr isUnix)
        next notUnix =>
          split at isPlugin
          next =>
            obtain ⟨b, -, rfl⟩ := map_eq_ok_iff.mp (Option.some.inj isPlugin)
            exact iff_of_true (by rintro _ ⟨⟩) notUnix
          next => cases isPlugin

/-- The bytes of a user reach the local service or the plugin, and the other way round,
exactly where both ends match. -/
theorem channel_transparent_iff {ch : Channel} (registered : Registered cfg p way s)
    (opened : openChannel serverConfigFromPem hmacSha1 cfg p token s = some ch) :
    ch.Transparent ↔ Matched hmacSha1 cfg p way token := by
  rw [openChannel] at opened
  split at opened
  next => cases opened
  next client flows =>
    obtain ⟨u, isEnd, rfl⟩ := Option.map_eq_some_iff.mp opened
    have isStream := serverEnd_stream isEnd
    rw [workConnFlow, if_neg (not_or.mpr isStream)] at flows
    split at flows
    next => cases flows
    next plugin isPlugin =>
      obtain ⟨named, readsAll⟩ := fromProxy_kind isPlugin
      obtain ⟨-, -, rfl⟩ := map_eq_ok_iff.mp flows
      rw [Channel.transparent_plugin_iff, readsAll, Matched, if_pos named]
      rcases serverEnd_cases isEnd with ⟨relayed, rfl⟩ | ⟨notRelayed, rfl⟩
      · simp only [relayed, true_or]
      · rw [registered.proxyFlags, flagged_eq_plain_iff]
        rw [or_iff_right notRelayed]
    next isNone =>
      obtain rfl := Except.ok.inj flows
      rw [Channel.transparent_forward_iff, Matched, if_neg (not_not.mpr (plugin_fromProxy_eq_none_iff.mp isNone))]
      have ofClient : ({ key := if effEnc cfg p then some (deriveKey hmacSha1 (bytesOf cfg.token)) else none
                         compress := effComp cfg p } : Transform Block) =
          flagged hmacSha1 cfg.token (effEnc cfg p, effComp cfg p) := rfl
      rw [ofClient]
      rcases serverEnd_cases isEnd with ⟨relayed, rfl⟩ | ⟨notRelayed, rfl⟩
      · rw [flagged_eq_plain_iff, if_pos relayed, Prod.mk.injEq]
      · rw [registered.proxyFlags, flagged_eq_iff, if_neg notRelayed]

def webProxy : ProxyConfig where
  name := "web"
  localAddr := "127.0.0.1:80"
  remotePort := 6000
  useCompression := true

def alice : ClientConfig := { user := "alice" }

def aliceSqueezes : ClientConfig := { user := "alice", useCompression := true }

def heldBy (cfg : ClientConfig) (p : ProxyConfig) (way : Way) : Proxies :=
  ({} : Proxies).enter (way.announcement cfg p) ""

theorem channel_transparent_webProxy : Channel.Transparent ⟨.forward ⟨none, true⟩, ⟨none, true⟩⟩ := by
  have opened : openChannel (fun _ _ => .ok ()) (fun _ _ => .replicate 20 0) alice webProxy ""
      (heldBy alice webProxy .webAdd) = some ⟨.forward ⟨none, true⟩, ⟨none, true⟩⟩ := rfl
  refine (channel_transparent_iff (registered_enter alice webProxy .webAdd {} "") opened).mpr ?_
  rw [Matched, if_neg (by decide +kernel), if_neg (by decide +kernel)]
  exact ⟨rfl, nofun⟩

/-- What both ends do to the bytes of a proxy that was just registered. -/
def channelOf (cfg : ClientConfig) (p : ProxyConfig) (way : Way) : Option Channel :=
  openChannel (fun _ _ => .ok ()) (fun _ _ => .replicate 20 0) cfg p "" (heldBy cfg p way)

/-- A client that compresses everything: a proxy from the panel, one with a plugin, and one
for visitors; and a plugin whose first bytes come with the handshake. -/
theorem not_transparent_examples :
    channelOf aliceSqueezes { webProxy with useCompression := false } .panelAdd =
        some ⟨.forward ⟨none, true⟩, .plain⟩ ∧ ¬Channel.Transparent ⟨.forward ⟨none, true⟩, .plain⟩ ∧
      channelOf alice { webProxy with plugin := "socks5" } .startup =
        some ⟨.plugin (.socks5 "" ""), ⟨none, true⟩⟩ ∧ ¬Channel.Transparent ⟨.plugin (.socks5 "" ""), ⟨none, true⟩⟩ ∧
      channelOf alice { webProxy with proxyType := "stcp" } .startup = some ⟨.forward ⟨none, true⟩, .plain⟩ ∧
      channelOf alice
          { webProxy with plugin := "unix_domain_socket", pluginLocalPath := "/run/web.sock", useCompression := false }
          .startup = some ⟨.plugin (.unixSocket "/run/web.sock"), .plain⟩ ∧
      ¬Channel.Transparent ⟨.plugin (.unixSocket "/run/web.sock"), .plain⟩ := by
  refine ⟨rfl, ?_, rfl, ?_, rfl, rfl, ?_⟩
  · exact fun transparent => nomatch Channel.transparent_forward_iff.mp transparent
  · exact fun transparent => nomatch (Channel.transparent_plugin_iff.mp transparent).2
  · exact fun transparent => (Channel.transparent_plugin_iff.mp transparent).1 _ rfl

end Nfrp
