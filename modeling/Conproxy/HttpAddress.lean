import Conproxy.Config
import Conproxy.Lib.SocketText

/-!
# The address of the HTTP endpoint

The server and its client each derive the address of the HTTP endpoint from the address that the
server listens on: the server parses it and prints it with the next port, the client takes the port
from the end of its URL.
-/

namespace Conproxy

open SocketText

set_option autoImplicit false

/-- `u16::saturating_add(1)`. -/
def nextPort (port : UInt16) : UInt16 := if port = 65535 then port else port + 1

def ProxyConfig.httpListenAddr (c : ProxyConfig) : String :=
  match c.httpListen with
  | some addr => addr
  | none =>
    match parseSocketAddr (c.listen.getD "127.0.0.1:9999").toList with
    | some addr => String.ofList (addr.ip.display ++ ':' :: decimal (nextPort addr.port).toNat)
    | none => "127.0.0.1:10000"

/-- What follows the last occurrence of a character. -/
def afterLast (target : Char) : List Char → Option (List Char)
  | [] => none
  | c :: rest => (afterLast target rest).or (if c = target then some rest else none)

/-- `str::parse::<u16>`. -/
def parseU16 (text : List Char) : Option UInt16 :=
  let digits := if text.head? = some '+' then text.tail else text
  if digits = [] ∨ digits.all (isDigitOf 10) = false ∨ 2 ^ 16 ≤ valueOf 10 digits then none
  else some (.ofNat (valueOf 10 digits))

structure ClientConfig where
  baseUrl : String
  httpUrl : Option String

namespace ClientConfig

def new (baseUrl : String) : ClientConfig := ⟨baseUrl, none⟩

def httpBaseUrl (c : ClientConfig) : String :=
  match c.httpUrl with
  | some url => url
  | none =>
    match (afterLast ':' c.baseUrl.toList).bind parseU16 with
    | some port => String.ofList ("http://127.0.0.1:".toList ++ decimal (nextPort port).toNat)
    | none => c.baseUrl

end ClientConfig

def urlAddress (url : String) : Option SocketAddr :=
  match url.toList with
  | 'h' :: 't' :: 't' :: 'p' :: ':' :: '/' :: '/' :: authority => parseSocketAddr authority
  | _ => none

/-- The server's endpoint has the IP address it listens on and another port, and the client of the
server asks there. -/
def SharesHttpAddress (c : ProxyConfig) (listen : String) (addr : SocketAddr) : Prop :=
  ∃ http, parseSocketAddr c.httpListenAddr.toList = some http ∧ http.ip = addr.ip ∧
    http.port ≠ addr.port ∧
    ∃ asked, urlAddress (ClientConfig.new ("http://" ++ listen)).httpBaseUrl = some asked ∧
      asked.ip = http.ip ∧ asked.port = http.port

def localhost : Ipv4 := ⟨127, 0, 0, 1⟩

theorem nextPort_ne_iff {port : UInt16} : nextPort port ≠ port ↔ port ≠ 65535 := by
  unfold nextPort
  split
  · rename_i hlast
    exact ⟨fun h => absurd rfl h, fun h => absurd hlast h⟩
  · rename_i hlast
    refine ⟨fun _ => hlast, fun _ h => ?_⟩
    have hnat := congrArg UInt16.toNat h
    have hlt := port.toNat_lt
    rw [UInt16.toNat_add] at hnat
    change (port.toNat + 1) % 2 ^ 16 = port.toNat at hnat
    omega

theorem afterLast_append {target : Char} {after : List Char} (h : target ∉ after)
    (before : List Char) : afterLast target (before ++ target :: after) = some after := by
  have hnone : afterLast target after = none := by
    induction after with
    | nil => rfl
    | cons c after ih =>
      rw [afterLast, ih (List.not_mem_of_not_mem_cons h),
        if_neg (Ne.symm (List.ne_of_not_mem_cons h))]
      rfl
  induction before with
  | nil =>
    rw [List.nil_append, afterLast, hnone, if_pos rfl]
    rfl
  | cons c before ih =>
    rw [List.cons_append, afterLast, ih]
    rfl

theorem parseU16_digits {digits : List Char} {port : UInt16} (hne : digits ≠ [])
    (hdigit : ∀ c ∈ digits, isDigitOf 10 c = true) (hvalue : valueOf 10 digits = port.toNat) :
    parseU16 digits = some port := by
  have hplus : ¬digits.head? = some '+' := fun h =>
    absurd (hdigit '+' (List.mem_of_head? h)) (by decide)
  unfold parseU16
  rw [if_neg hplus]
  dsimp only
  rw [hvalue, if_neg]
  · exact congrArg some UInt16.ofNat_toNat
  · rintro (h | h | h)
    · exact hne h
    · exact absurd (List.all_eq_true.mpr hdigit) (by rw [h]; decide)
    · exact absurd port.toNat_lt (Nat.not_lt_of_le h)

section Derived

variable {listen : String} {addr : SocketAddr}

theorem httpBaseUrl_eq (h : parseSocketAddr listen.toList = some addr) :
    (ClientConfig.new ("http://" ++ listen)).httpBaseUrl =
      String.ofList ("http://127.0.0.1:".toList ++ decimal (nextPort addr.port).toNat) := by
  obtain ⟨digits, hne, hdigit, hvalue, before, hsplit⟩ := parseSocketAddr_port h
  have hcolon : ':' ∉ digits := fun hmem => absurd (hdigit ':' hmem) (by decide)
  have htext : ("http://" ++ listen).toList =
      ("http://".toList ++ before) ++ ':' :: digits := by
    rw [String.toList_append, ← hsplit]
    simp
  unfold ClientConfig.httpBaseUrl ClientConfig.new
  dsimp only
  rw [htext, afterLast_append hcolon, Option.bind_some, parseU16_digits hne hdigit hvalue]

theorem localhost_display : localhost.display = "127.0.0.1".toList := by decide

theorem urlAddress_eq (h : parseSocketAddr listen.toList = some addr) :
    urlAddress (ClientConfig.new ("http://" ++ listen)).httpBaseUrl =
      some (.v4 localhost (nextPort addr.port)) := by
  have hparse := parseSocketAddr_v4 localhost (nextPort addr.port)
  rw [localhost_display] at hparse
  rw [httpBaseUrl_eq h, urlAddress, String.toList_ofList]
  exact hparse

variable {c : ProxyConfig}

theorem httpListenAddr_eq (hlisten : c.listen = some listen) (hhttp : c.httpListen = none)
    (h : parseSocketAddr listen.toList = some addr) :
    c.httpListenAddr =
      String.ofList (addr.ip.display ++ ':' :: decimal (nextPort addr.port).toNat) := by
  unfold ProxyConfig.httpListenAddr
  rw [hhttp, hlisten, Option.getD_some]
  dsimp only
  rw [h]

theorem parse_httpListenAddr (hlisten : c.listen = some listen) (hhttp : c.httpListen = none)
    (h : parseSocketAddr listen.toList = some addr) :
    parseSocketAddr c.httpListenAddr.toList =
      match addr with
      | .v4 ip port => some (.v4 ip (nextPort port))
      | .v6 .. => none := by
  rw [httpListenAddr_eq hlisten hhttp h, String.toList_ofList]
  cases addr with
  | v4 ip port => exact parseSocketAddr_v4 ip (nextPort port)
  | v6 ip port flowinfo scopeId => exact parseSocketAddr_v6 ip _

/-- The derived addresses serve exactly a server on the IPv4 loopback address, on any port but the
last. -/
theorem shares_http_address_iff (hlisten : c.listen = some listen) (hhttp : c.httpListen = none)
    (h : parseSocketAddr listen.toList = some addr) :
    SharesHttpAddress c listen addr ↔ addr.ip = .v4 localhost ∧ addr.port ≠ 65535 := by
  have hserver := parse_httpListenAddr hlisten hhttp h
  unfold SharesHttpAddress
  rw [hserver, urlAddress_eq h]
  cases addr with
  | v4 ip port =>
    constructor
    · rintro ⟨http, hhttp, hip, hport, asked, hasked, hhost, hsame⟩
      obtain rfl := Option.some.inj hhttp
      obtain rfl := Option.some.inj hasked
      exact ⟨hhost.symm, nextPort_ne_iff.mp hport⟩
    · rintro ⟨hip, hport⟩
      exact ⟨_, rfl, rfl, nextPort_ne_iff.mpr hport, _, rfl, hip.symm, rfl⟩
  | v6 ip port flowinfo scopeId =>
    constructor
    · rintro ⟨http, hhttp, -⟩
      cases hhttp
    · rintro ⟨hip, -⟩
      cases hip

end Derived

def listeningOn (listen : String) : ProxyConfig :=
  { ProxyConfig.default with listen := some listen }

theorem loopback_shares_http_address :
    SharesHttpAddress (listeningOn "127.0.0.1:9999") "127.0.0.1:9999" (.v4 localhost 9999) :=
  (shares_http_address_iff rfl rfl (by decide)).mpr ⟨rfl, by decide⟩

/-- A server that listens on the IPv6 loopback address. -/
theorem ipv6_has_no_http_address :
    ∃ addr, parseSocketAddr "[::1]:9999".toList = some addr ∧
      (listeningOn "[::1]:9999").httpListenAddr = "::1:10000" ∧
      ¬SharesHttpAddress (listeningOn "[::1]:9999") "[::1]:9999" addr := by
  refine ⟨.v6 ⟨#v[0, 0, 0, 0, 0, 0, 0, 1]⟩ 9999 0 0, by decide, by decide, ?_⟩
  rintro ⟨http, hhttp, -⟩
  have hnone : parseSocketAddr (listeningOn "[::1]:9999").httpListenAddr.toList = none := by decide
  rw [hnone] at hhttp
  cases hhttp

end Conproxy
