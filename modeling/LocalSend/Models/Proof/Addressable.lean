import LocalSend.Http.Connection
import LocalSend.Models.Proof.Devices
import LocalSend.Qt.Ascii
import LocalSend.Qt.Url

/-!
# The URL of a listed device

The address of a device comes from a socket (`PeerAddress`), its port from the payload, and `apiBase`
writes both behind the scheme. An IPv6 address stands there without brackets, so its colons are
taken for the one before the port; and any port an `int` can hold is taken over from the payload.
`addressable_iff` says which devices can be reached at their URL.
-/

set_option autoImplicit false

namespace LocalSend

/-- A peer's address, as a dual-stack listener or a socket knows it. Where an IPv6 address begins
as the mapped ones do and is none of them, another colon follows. -/
inductive PeerAddress
  | ipv4 (a b c d : UInt8)
  | mapped (a b c d : UInt8)
  | ipv6 (address : Ipv6) (colon : 58 ∈ unmapped address.text) (scope : Option QString)

namespace PeerAddress

/-- `QHostAddress::toString`. -/
def toString : PeerAddress → QString
  | .ipv4 a b c d => LocalSend.ipv4 a b c d
  | .mapped a b c d => str "::ffff:" ++ LocalSend.ipv4 a b c d
  | .ipv6 address _ none => address.text
  | .ipv6 address _ (some scope) => address.text ++ 37 :: scope

/-- The address as the server and the announcement socket keep it. -/
def kept (p : PeerAddress) : QString := unmapped p.toString

def IsIpv4 : PeerAddress → Prop
  | .ipv6 .. => False
  | _ => True

end PeerAddress

namespace DeviceInfo

/-- The device a payload describes, at the address it came from. -/
def received (payload : QJsonObject) (peer : PeerAddress) : DeviceInfo :=
  { fromPayload payload with address := peer.kept }

/-- The device's URL leads to its address and port. -/
def Addressable (hosts : HostParser) (d : DeviceInfo) : Prop :=
  ∃ url port, QUrl.parse hosts d.apiBase = some url ∧
    (url.scheme = str "http" ∨ url.scheme = str "https") ∧ url.host = d.address ∧
    url.port = some port ∧ (port : Int) = d.port ∧ 1 ≤ d.port ∧ d.port ≤ 65535

/-- A port the payload sets to a whole number of the `int`s is one. -/
def PortFits (payload : QJsonObject) : Prop :=
  match payload.value (str "port") with
  | .double q => q.den = 1 ∧ -2 ^ 31 ≤ q.num ∧ q.num < 2 ^ 31 → 1 ≤ q.num ∧ q.num ≤ 65535
  | _ => True

theorem portFits_iff (payload : QJsonObject) :
    PortFits payload ↔ 1 ≤ (fromPayload payload).port ∧ (fromPayload payload).port ≤ 65535 := by
  have hport : (fromPayload payload).port =
      if (payload.value (str "port")).isDouble then
        (payload.value (str "port")).toInt Protocol.DefaultPort else Protocol.DefaultPort := rfl
  have hdefault : 1 ≤ Protocol.DefaultPort ∧ Protocol.DefaultPort ≤ 65535 := by decide
  unfold PortFits
  rw [hport]
  cases payload.value (str "port") with
  | double q =>
    simp only [QJsonValue.isDouble, QJsonValue.toInt, if_true]
    split
    · rename_i h
      exact ⟨fun hfits => hfits h, fun hfits _ => hfits⟩
    · rename_i h
      exact iff_of_true (fun hq => absurd hq h) hdefault
  | _ => exact iff_of_true trivial hdefault

/-! ## The text of the URL -/

theorem apiBase_eq {d : DeviceInfo} (hprotocol : d.protocol = str "http" ∨ d.protocol = str "https")
    (haddress : 37 ∉ d.address) :
    d.apiBase = d.protocol ++ 58 :: 47 :: 47 ::
      (d.address ++ 58 :: (decimal d.port ++ Protocol.ApiPrefix)) := by
  have hbase : QString.arg (str "%1://%2:%3%4")
      (if d.protocol = [] then str "http" else d.protocol) =
      (d.protocol ++ str "://") ++ str "%2:%3%4" := by
    rcases hprotocol with hp | hp <;> rw [hp] <;> decide
  have haddr : QString.arg (str "%2:%3%4") d.address = (d.address ++ str ":") ++ str "%3%4" := by
    rw [QString.arg_of_markers (n := 2) (by decide : _ = [2, 3, 4]) (by decide), List.append_assoc]
    rfl
  have hport : QString.arg (str "%3%4") (decimal d.port) = decimal d.port ++ str "%4" := by
    rw [QString.arg_of_markers (n := 3) (by decide : _ = [3, 4]) (by decide)]
    rfl
  have hapi : QString.arg (str "%4") Protocol.ApiPrefix = Protocol.ApiPrefix := by decide
  -- nothing that is put in has a marker in it
  have h1 : 37 ∉ d.protocol ++ str "://" := by
    rcases hprotocol with hp | hp <;> rw [hp] <;> decide
  have h2 : 37 ∉ d.address ++ str ":" := by
    intro hmem
    rcases List.mem_append.1 hmem with hmem | hmem
    · exact haddress hmem
    · exact absurd hmem (by decide)
  have h3 : 37 ∉ decimal d.port := by
    intro hmem
    rcases List.mem_append.1 hmem with hmem | hmem
    · split at hmem
      · exact absurd hmem (by decide)
      · exact absurd hmem List.not_mem_nil
    · exact QString.number_plain (by decide) hmem
  unfold apiBase
  simp only
  rw [hbase, QString.arg_plain h1, haddr, QString.arg_plain h1, QString.arg_plain h2, hport,
    QString.arg_plain h1, QString.arg_plain h2, QString.arg_plain h3, hapi]
  simp [str]

end DeviceInfo

/-! ## Reading a URL -/

namespace QUrl

variable {hosts : HostParser}

theorem parse_eq {scheme authority rest : QString} (hcolon : 58 ∉ scheme)
    (hscheme : isScheme scheme = true)
    (hauthority : ∀ c ∈ authority, c ≠ 47 ∧ c ≠ 63 ∧ c ≠ 35) :
    parse hosts (scheme ++ 58 :: 47 :: 47 :: (authority ++ 47 :: rest)) =
      (readAuthority hosts authority).map fun r => ⟨scheme.map lower, r.1, r.2⟩ := by
  have htake : (scheme ++ 58 :: 47 :: 47 :: (authority ++ 47 :: rest)).takeWhile (· != 58) =
      scheme := by
    rw [List.takeWhile_append_of_pos fun c hc => ?_]
    · simp
    · simp only [bne_iff_ne]
      rintro rfl
      exact hcolon hc
  have hauth : (authority ++ 47 :: rest).takeWhile (fun c => c != 47 && c != 63 && c != 35) =
      authority := by
    rw [List.takeWhile_append_of_pos fun c hc => ?_]
    · simp
    · simp [hauthority c hc]
  unfold parse
  simp only
  rw [htake, List.drop_left]
  simp only [hscheme, if_true, hauth]

/-- A host without user information or brackets, and the text of its port. -/
theorem readAuthority_eq {host digits : QString} (hat : 64 ∉ host ++ 58 :: digits)
    (hbracket : host.head? ≠ some 91) (hhost : host ≠ []) (hdigits : digits ≠ [])
    (hcolon : 58 ∉ digits) :
    readAuthority hosts (host ++ 58 :: digits) = (QString.magnitude digits).bind fun n =>
      if n < 65536 then (hosts.name host).map (·, some n) else none := by
  have hindex : QString.indexOf (host ++ 58 :: digits) 64 = none := by
    refine List.findIdx?_eq_none_iff.2 fun c hc => ?_
    simp only [beq_eq_false_iff_ne]
    rintro rfl
    exact hat hc
  have hread : readHost hosts host = hosts.name host := by
    unfold readHost
    split
    · exact absurd rfl hhost
    · exact absurd rfl hbracket
    · rfl
  have hport : portColon (host ++ 58 :: digits) = some host.length := by
    unfold portColon
    rw [QString.lastIndexOf_append hcolon]
    refine if_neg ?_
    rw [List.head?_append_of_ne_nil _ hhost]
    exact hbracket
  unfold readAuthority
  rw [hindex]
  simp only [hport]
  rw [List.take_left, hread]
  simp [hdigits]

theorem readAuthority_host {authority : QString} {r : QString × Option Nat}
    (h : readAuthority hosts authority = some r) : ∃ s, readHost hosts s = some r.1 := by
  have hmap : ∀ {s : QString} {port : Option Nat}, (readHost hosts s).map (·, port) = some r →
      ∃ s, readHost hosts s = some r.1 := by
    intro s port hs
    obtain ⟨host, hhost, rfl⟩ := Option.map_eq_some_iff.1 hs
    exact ⟨s, hhost⟩
  unfold readAuthority at h
  extract_lets rest at h
  split at h
  · exact hmap h
  · extract_lets digits host at h
    split at h
    · exact hmap h
    · obtain ⟨n, -, hn⟩ := Option.bind_eq_some_iff.1 h
      split at hn
      · exact hmap hn
      · exact absurd hn (by simp)

/-- A host is an IPv6 address, or has no colon in it. -/
theorem parse_host {text : QString} {url : QUrl} (h : parse hosts text = some url) :
    (∀ c ∈ url.host, isIpv6Char c = true) ∨ 58 ∉ url.host := by
  unfold parse at h
  simp only at h
  split at h
  · split at h
    · obtain ⟨r, hr, rfl⟩ := Option.map_eq_some_iff.1 h
      obtain ⟨s, hs⟩ := readAuthority_host hr
      unfold readHost at hs
      split at hs
      · have hnil : [] = r.1 := by simpa using hs
        exact .inl (by simp [← hnil])
      · split at hs
        · exact .inl (hosts.literal_chars _ _ hs)
        · exact absurd hs (by simp)
      · exact .inr (hosts.name_chars _ _ hs)
    · exact absurd h (by simp)
  · exact absurd h (by simp)

end QUrl

/-! ## The addresses -/

theorem unmapped_ipv4 (a b c d : UInt8) : unmapped (ipv4 a b c d) = ipv4 a b c d := by
  refine if_neg fun h => ?_
  obtain ⟨rest, hrest⟩ := List.isPrefixOf_iff_prefix.1 h
  have hcolon : (58 : QChar) ∈ ipv4 a b c d := by
    rw [← hrest]
    exact List.mem_append_left _ (by decide)
  rcases ipv4_chars hcolon with hc | hc
  · exact absurd hc (by decide)
  · exact absurd hc (by decide)

theorem unmapped_mapped (s : QString) : unmapped (str "::ffff:" ++ s) = s := by
  unfold unmapped
  rw [if_pos (List.isPrefixOf_iff_prefix.2 (List.prefix_append _ _))]
  rfl

theorem mem_unmapped {s : QString} {c : QChar} (h : c ∈ unmapped s) : c ∈ s := by
  unfold unmapped at h
  split at h
  · exact List.mem_of_mem_drop h
  · exact h

/-- The scope of an address stays behind it. -/
theorem unmapped_scoped (s scope : QString) :
    unmapped (s ++ 37 :: scope) = unmapped s ++ 37 :: scope := by
  have hmapped : (str "::ffff:").isPrefixOf (s ++ 37 :: scope) = (str "::ffff:").isPrefixOf s := by
    rw [Bool.eq_iff_iff, List.isPrefixOf_iff_prefix, List.isPrefixOf_iff_prefix]
    constructor
    · intro h
      by_cases hlen : (str "::ffff:").length ≤ s.length
      · exact List.prefix_of_prefix_length_le h (List.prefix_append _ _) hlen
      · -- the percent sign would be one of the first seven
        have hlt : s.length < (str "::ffff:").length := by omega
        have hget := List.IsPrefix.getElem h hlt
        rw [List.getElem_append_right (Nat.le_refl _)] at hget
        simp only [Nat.sub_self, List.getElem_cons_zero] at hget
        have hmem : (37 : QChar) ∈ str "::ffff:" := hget ▸ List.getElem_mem hlt
        exact absurd hmem (by decide)
    · intro h
      exact h.trans (List.prefix_append _ _)
  unfold unmapped
  rw [hmapped]
  split
  · rename_i h
    have hlen := (List.isPrefixOf_iff_prefix.1 h).length_le
    rw [List.drop_append_of_le_length (by exact hlen)]
  · rfl

/-- The server keeps a peer's address so. -/
theorem peerAddress_accepted (now : Nat) (peer : PeerAddress) (certificate : Option QByteArray) :
    (HttpConnection.accepted now peer.toString certificate).peerAddress = peer.kept := rfl

theorem PeerAddress.kept_ipv4 (a b c d : UInt8) :
    (PeerAddress.ipv4 a b c d).kept = LocalSend.ipv4 a b c d :=
  unmapped_ipv4 a b c d

theorem PeerAddress.kept_mapped (a b c d : UInt8) :
    (PeerAddress.mapped a b c d).kept = LocalSend.ipv4 a b c d :=
  unmapped_mapped _

theorem isIpv6Char_plain {c : QChar} (h : isIpv6Char c = true) :
    c ≠ 37 ∧ c ≠ 47 ∧ c ≠ 63 ∧ c ≠ 35 ∧ c ≠ 64 ∧ c ≠ 91 := by
  refine ⟨?_, ?_, ?_, ?_, ?_, ?_⟩ <;> rintro rfl <;> exact absurd h (by decide)

theorem ipv4_ipv6Char {a b c d : UInt8} {e : QChar} (h : e ∈ ipv4 a b c d) :
    isIpv6Char e = true := by
  rcases ipv4_chars h with he | he
  · simp [isIpv6Char, he]
  · simp [isIpv6Char, he]

theorem ipv4_ne_nil (a b c d : UInt8) : ipv4 a b c d ≠ [] := by
  simp [ipv4]

namespace DeviceInfo

variable {hosts : HostParser} {d : DeviceInfo}

theorem magnitude_decimal (n : Int) :
    QString.magnitude (decimal n) = if n < 0 then none else some n.natAbs := by
  unfold decimal
  split
  · refine if_neg fun h => ?_
    simp [QString.isDigit] at h
  · exact QString.magnitude_number _

theorem decimal_plain {n : Int} {c : QChar} (h : c ∈ decimal n) :
    c = 45 ∨ QString.isDigit c = true := by
  rcases List.mem_append.1 h with h | h
  · split at h
    · exact .inl (List.mem_singleton.1 h)
    · exact absurd h List.not_mem_nil
  · exact .inr (QString.number_digits h)

theorem decimal_ne_nil (n : Int) : decimal n ≠ [] := by
  unfold decimal
  simp [QString.number_ne_nil]

/-- An address without a scope is taken for a host name or an IPv4 address. -/
theorem parse_apiBase (hprotocol : d.protocol = str "http" ∨ d.protocol = str "https")
    (hchars : ∀ c ∈ d.address, isIpv6Char c = true) (hne : d.address ≠ []) :
    QUrl.parse hosts d.apiBase =
      (if 0 ≤ d.port ∧ d.port < 65536 then (hosts.name d.address).map fun host =>
        ⟨d.protocol, host, some d.port.natAbs⟩ else none) := by
  have hplain : 37 ∉ d.address := fun h => (isIpv6Char_plain (hchars 37 h)).1 rfl
  have hdecimal : ∀ {c : QChar}, c ∈ decimal d.port → c ≠ 47 ∧ c ≠ 63 ∧ c ≠ 35 ∧ c ≠ 64 ∧ c ≠ 58 := by
    intro c hc
    rcases decimal_plain hc with rfl | hc
    · decide
    · refine ⟨?_, ?_, ?_, ?_, ?_⟩ <;> rintro rfl <;> exact absurd hc (by decide)
  have hauthority : ∀ c ∈ d.address ++ 58 :: decimal d.port,
      c ≠ 47 ∧ c ≠ 63 ∧ c ≠ 35 ∧ c ≠ 64 := by
    intro c hc
    rcases List.mem_append.1 hc with hc | hc
    · have h := isIpv6Char_plain (hchars c hc)
      exact ⟨h.2.1, h.2.2.1, h.2.2.2.1, h.2.2.2.2.1⟩
    · rcases List.mem_cons.1 hc with rfl | hc
      · decide
      · have h := hdecimal hc
        exact ⟨h.1, h.2.1, h.2.2.1, h.2.2.2.1⟩
  have htext : d.apiBase = d.protocol ++ 58 :: 47 :: 47 ::
      ((d.address ++ 58 :: decimal d.port) ++ 47 :: Protocol.ApiPrefix.tail) := by
    rw [apiBase_eq hprotocol hplain, List.append_assoc]
    rfl
  have hscheme : 58 ∉ d.protocol ∧ QUrl.isScheme d.protocol = true ∧
      d.protocol.map QUrl.lower = d.protocol := by
    rcases hprotocol with hp | hp <;> rw [hp] <;> decide
  have hbracket : d.address.head? ≠ some 91 := by
    intro h
    have hmem : 91 ∈ d.address := List.mem_of_mem_head? h
    exact (isIpv6Char_plain (hchars 91 hmem)).2.2.2.2.2 rfl
  rw [htext, QUrl.parse_eq hscheme.1 hscheme.2.1 fun c hc =>
      ⟨(hauthority c hc).1, (hauthority c hc).2.1, (hauthority c hc).2.2.1⟩,
    QUrl.readAuthority_eq (fun h => (hauthority 64 h).2.2.2 rfl) hbracket hne (decimal_ne_nil _)
      (fun h => (hdecimal h).2.2.2.2 rfl), magnitude_decimal, hscheme.2.2]
  by_cases hneg : d.port < 0
  · rw [if_pos hneg, if_neg (by omega)]
    rfl
  · rw [if_neg hneg]
    by_cases hbig : d.port < 65536
    · rw [if_pos (by omega)]
      simp only [Option.bind_some]
      rw [if_pos (by omega), Option.map_map]
      rfl
    · rw [if_neg (by omega)]
      simp only [Option.bind_some]
      rw [if_neg (by omega)]
      rfl

theorem addressable_ipv4 (hprotocol : d.protocol = str "http" ∨ d.protocol = str "https")
    {a b c e : UInt8} (haddress : d.address = ipv4 a b c e) :
    Addressable hosts d ↔ 1 ≤ d.port ∧ d.port ≤ 65535 := by
  have hchars : ∀ c ∈ d.address, isIpv6Char c = true := by
    rw [haddress]
    exact fun _ => ipv4_ipv6Char
  have hne : d.address ≠ [] := by
    rw [haddress]
    exact ipv4_ne_nil a b c e
  have hparse : QUrl.parse hosts d.apiBase = _ := parse_apiBase hprotocol hchars hne
  rw [haddress, hosts.name_ipv4] at hparse
  constructor
  · intro ⟨_, _, _, _, _, _, _, hlow, hhigh⟩
    exact ⟨hlow, hhigh⟩
  · intro ⟨hlow, hhigh⟩
    rw [if_pos (by omega)] at hparse
    exact ⟨_, d.port.natAbs, hparse, hprotocol, haddress.symm, rfl, by omega, hlow, hhigh⟩

/-- The colons of an IPv6 address are not part of any host name. -/
theorem not_addressable_ipv6 (hprotocol : d.protocol = str "http" ∨ d.protocol = str "https")
    (hcolon : 58 ∈ d.address) (hkind : (∀ c ∈ d.address, isIpv6Char c = true) ∨ 37 ∈ d.address) :
    ¬ Addressable hosts d := by
  intro h
  obtain ⟨url, port, hparse, -, hhost, -⟩ := h
  rcases hkind with hchars | hscope
  · rw [parse_apiBase hprotocol hchars (List.ne_nil_of_mem hcolon)] at hparse
    split at hparse
    · obtain ⟨host, hname, rfl⟩ := Option.map_eq_some_iff.1 hparse
      refine hosts.name_chars _ _ hname ?_
      rw [show host = d.address from hhost]
      exact hcolon
    · exact absurd hparse (by simp)
  · rcases QUrl.parse_host hparse with hchars | hplain
    · rw [hhost] at hchars
      exact (isIpv6Char_plain (hchars 37 hscope)).1 rfl
    · rw [hhost] at hplain
      exact hplain hcolon

theorem received_protocol (payload : QJsonObject) (peer : PeerAddress) :
    (received payload peer).protocol = str "http" ∨
      (received payload peer).protocol = str "https" := by
  unfold received fromPayload
  simp only
  split
  · exact .inr ‹_›
  · exact .inl rfl

theorem addressable_received (hosts : HostParser) (payload : QJsonObject) (peer : PeerAddress)
    (now : Nat) : Addressable hosts { received payload peer with lastSeen := now } ↔
      peer.IsIpv4 ∧ PortFits payload := by
  have hprotocol := received_protocol payload peer
  rw [portFits_iff]
  cases peer with
  | ipv4 a b c d =>
    rw [addressable_ipv4 (d := { received payload (.ipv4 a b c d) with lastSeen := now }) hprotocol
      (PeerAddress.kept_ipv4 a b c d)]
    exact ⟨fun h => ⟨trivial, h⟩, fun h => h.2⟩
  | mapped a b c d =>
    rw [addressable_ipv4 (d := { received payload (.mapped a b c d) with lastSeen := now }) hprotocol
      (PeerAddress.kept_mapped a b c d)]
    exact ⟨fun h => ⟨trivial, h⟩, fun h => h.2⟩
  | ipv6 address colon scope =>
    refine iff_of_false ?_ fun h => h.1
    refine not_addressable_ipv6 (d := { received payload (.ipv6 address colon scope) with
      lastSeen := now }) hprotocol ?_ ?_
    · cases scope with
      | none => exact colon
      | some scope =>
        show 58 ∈ unmapped (address.text ++ 37 :: scope)
        rw [unmapped_scoped]
        exact List.mem_append_left _ colon
    · cases scope with
      | none => exact .inl fun c hc => address.chars c (mem_unmapped hc)
      | some scope =>
        right
        show 37 ∈ unmapped (address.text ++ 37 :: scope)
        rw [unmapped_scoped]
        simp

end DeviceInfo

section
variable [Qt]

/-- A device that `upsert` takes in is listed as it was received, and can be reached at its URL if
and only if it came from an IPv4 address with a port that is one. -/
theorem addressable_iff (hosts : HostParser) (m : DeviceModel) (known : KnownDevices) (now : Nat)
    (payload : QJsonObject) (peer : PeerAddress)
    (h : m.Lists known (DeviceInfo.received payload peer)) :
    { DeviceInfo.received payload peer with lastSeen := now } ∈
      (m.upsert known now (DeviceInfo.received payload peer)).2.devices ∧
    (∀ row ∈ (m.upsert known now (DeviceInfo.received payload peer)).2.devices,
      row ∈ m.devices ∨ row = { DeviceInfo.received payload peer with lastSeen := now }) ∧
    (DeviceInfo.Addressable hosts { DeviceInfo.received payload peer with lastSeen := now } ↔
      peer.IsIpv4 ∧ DeviceInfo.PortFits payload) := by
  refine ⟨h.mem now, fun row hrow => ?_, DeviceInfo.addressable_received hosts payload peer now⟩
  rcases DeviceModel.mem_upsert hrow with hold | hnew
  · exact .inl hold
  · exact .inr hnew.2

end

/-! ## A device on the local network -/

section

local instance addressQt : Qt := Ascii.qt [] []

/-- Names without a colon, and literals that are made of the right characters. -/
def plainHosts : HostParser where
  literal s := if s.all isIpv6Char then some s else none
  name s := if 58 ∈ s then none else some s
  literal_chars s h hs := by
    split at hs
    · rename_i hall
      obtain rfl : s = h := by simpa using hs
      simpa using hall
    · exact absurd hs (by simp)
  name_chars s h hs := by
    split at hs
    · exact absurd hs (by simp)
    · obtain rfl : s = h := by simpa using hs
      assumption
  name_ipv4 a b c d := by
    refine if_neg fun h => ?_
    rcases ipv4_chars h with hc | hc
    · exact absurd hc (by decide)
    · exact absurd hc (by decide)

/-- A device at an IPv4 address that names its port. -/
def deskPayload : QJsonObject := [
  (str "fingerprint", .string (str "A1")),
  (str "port", .double 8080)]

theorem addressable_desk :
    { DeviceInfo.received deskPayload (.mapped 192 168 1 9) with lastSeen := 7 } ∈
      (DeviceModel.upsert ⟨[]⟩ ⟨∅⟩ 7 (DeviceInfo.received deskPayload
        (.mapped 192 168 1 9))).2.devices ∧
    DeviceInfo.Addressable plainHosts
      { DeviceInfo.received deskPayload (.mapped 192 168 1 9) with lastSeen := 7 } := by
  obtain ⟨hlisted, -, haddressable⟩ :=
    addressable_iff plainHosts ⟨[]⟩ ⟨∅⟩ 7 deskPayload (.mapped 192 168 1 9) (by decide)
  have hfits := (DeviceInfo.portFits_iff deskPayload).2 ⟨by decide, by decide⟩
  exact ⟨hlisted, haddressable.2 ⟨trivial, hfits⟩⟩

/-- A device at a link-local address: what is listed has a URL that is none. -/
theorem link_local_unaddressable :
    ¬ ∀ (m : DeviceModel) (known : KnownDevices) (now : Nat) (payload : QJsonObject)
      (peer : PeerAddress), m.Lists known (DeviceInfo.received payload peer) →
      ∀ row ∈ (m.upsert known now (DeviceInfo.received payload peer)).2.devices,
        row ∉ m.devices → DeviceInfo.Addressable plainHosts row := by
  intro h
  let payload : QJsonObject := [(str "fingerprint", .string (str "A1"))]
  let address : Ipv6 := ⟨str "fe80::1", List.all_eq_true.1 (by decide), by decide⟩
  let peer : PeerAddress := .ipv6 address (by decide) (some (str "wlan0"))
  have hlists : DeviceModel.Lists ⟨[]⟩ ⟨∅⟩ (DeviceInfo.received payload peer) := by decide
  have haddressable := h ⟨[]⟩ ⟨∅⟩ 7 payload peer hlists _ (hlists.mem 7) (by simp)
  exact ((DeviceInfo.addressable_received plainHosts payload peer 7).1 haddressable).1

end

end LocalSend
