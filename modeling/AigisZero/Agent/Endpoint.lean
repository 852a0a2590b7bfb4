import AigisZero.Agent.Isolation
import AigisZero.Library.IpText

/-!
# The endpoint of the fleet server

The agent takes an address and a port out of its endpoint, for the rules of
the isolation. It cuts the text at each colon. So an IPv4 address and its
port are read as they are meant, and of an IPv6 address in brackets only
what stands before its first colon is left, which is no address: it is
looked up as the name of a host, and where there is none it is the host
itself that the rules let through.
-/

namespace AigisZero.Agent

open IpText Netfilter

/-- The address of four octets. -/
def IpAddr.ofOctets (octets : List ℕ) : IpAddr :=
  .V4 (BitVec.ofNat 32 (octets.foldl (fun n octet => n * 256 + octet) 0))

/-- The address of eight groups. -/
def IpAddr.ofGroups (groups : List ℕ) : IpAddr :=
  .V6 (BitVec.ofNat 128 (groups.foldl (fun n group => n * 65536 + group) 0))

/-- `Parser::read_ip_addr`. -/
def read_ip_addr (cs : List Char) : Option (IpAddr × List Char) :=
  match read_ipv4_addr cs with
  | some (octets, rest) => some (.ofOctets octets, rest)
  | none => (read_ipv6_addr cs).map fun r => (.ofGroups r.1, r.2)

/-- `str::parse::<IpAddr>`. -/
def IpAddr.parse (cs : List Char) : Option IpAddr :=
  match read_ip_addr cs with
  | some (ip, []) => some ip
  | _ => none

/-- A number can have a plus sign. -/
def dropPlus : List Char → List Char
  | '+' :: rest => rest
  | cs => cs

/-- `str::parse::<u16>`. -/
def parse_u16 (cs : List Char) : Option UInt16 :=
  let digits := dropPlus cs
  if digits ≠ [] ∧ digits.all Char.isDigit then
    if Nat.ofDigitChars 10 digits 0 < 65536 then
      some (UInt16.ofNat (Nat.ofDigitChars 10 digits 0))
    else none
  else none

/-- `str::trim_start_matches`, the text being read as often as `fuel`. -/
def trimStart (pat : List Char) : ℕ → List Char → List Char
  | 0, cs => cs
  | fuel + 1, cs => if pat <+: cs then trimStart pat fuel (cs.drop pat.length) else cs

def trim_start_matches (pat : String) (cs : List Char) : List Char :=
  trimStart pat.toList cs.length cs

/-- `127.0.0.1`. -/
def localhost : IpAddr := .ofOctets [127, 0, 0, 1]

/-- `parse_endpoint`, with the first address that a host and port are looked
up as. -/
def parse_endpoint (to_socket_addrs : String → Option IpAddr) (endpoint : String) :
    IpAddr × UInt16 :=
  let clean := trim_start_matches "https://" (trim_start_matches "http://" endpoint.toList)
  let host_port := ((clean.splitOn '/').head?).getD clean
  let parts := host_port.splitOn ':'
  let host := (parts.head?).getD "127.0.0.1".toList
  let port := ((parts[1]?).bind parse_u16).getD 50051
  let trimmed := ((host.dropWhile (· = '[')).reverse.dropWhile (· = ']')).reverse
  let ip := ((IpAddr.parse trimmed).or
    (to_socket_addrs (String.ofList host ++ ":" ++ toString port))).getD localhost
  (ip, port)

/-! ## What is claimed -/

/-- An endpoint: an address, a port and a path. -/
structure Endpoint where
  https : Bool
  /-- The address as it is written, without brackets. -/
  literal : List Char
  ip : IpAddr
  parse_literal : IpAddr.parse literal = some ip
  /-- The port as it is written. -/
  digits : List Char
  port : UInt16
  digits_ne_nil : digits ≠ []
  isDigit_digits : ∀ c ∈ digits, c.isDigit = true
  ofDigits_digits : Nat.ofDigitChars 10 digits 0 = port.toNat
  path : List Char
  head_path : ∀ c ∈ path.head?, c = '/'

namespace Endpoint

/-- An IPv6 address is written in brackets. -/
def host (u : Endpoint) : List Char :=
  match u.ip with
  | .V4 _ => u.literal
  | .V6 _ => '[' :: (u.literal ++ [']'])

def scheme (u : Endpoint) : List Char :=
  if u.https then "https://".toList else "http://".toList

/-- The text of the endpoint. -/
def text (u : Endpoint) : String :=
  String.ofList (u.scheme ++ (u.host ++ ':' :: (u.digits ++ u.path)))

/-- What stands before the first colon of an IPv6 address, with the bracket
before it. -/
def firstPiece (u : Endpoint) : List Char := '[' :: u.literal.takeWhile (· ≠ ':')

/-- The port that what stands after the first colon is read as. -/
def secondPort (u : Endpoint) : UInt16 :=
  ((((u.literal ++ [']']).splitOn ':')[1]?).bind parse_u16).getD 50051

/-- The address is an IPv4 address; or a piece of it is looked up as the
address and another one read as the port. -/
def ReadAsMeant (to_socket_addrs : String → Option IpAddr) (u : Endpoint) : Prop :=
  match u.ip with
  | .V4 _ => True
  | .V6 _ =>
    to_socket_addrs (String.ofList u.firstPiece ++ ":" ++ toString u.secondPort) = some u.ip ∧
      u.secondPort = u.port

end Endpoint

/-- **The channel to a server is kept**: the rules of the isolation let
through what is sent to its port and what comes from there. -/
def KeepsChannel (φ : Type*) (mgr : IsolationManager) (ip : IpAddr) (port : UInt16) : Prop :=
  ∀ (p : Packet φ) (state : CtState) (other : UInt16),
    (p.daddr = ip → p.transport = .tcp other port →
      Passes (mgr.table.chains.map (Chain.base Expr.holds)) .output ⟨p, state⟩) ∧
    (p.saddr = ip → p.transport = .tcp port other →
      Passes (mgr.table.chains.map (Chain.base Expr.holds)) .input ⟨p, state⟩)

/-! ## Reading the text -/

theorem trimStart_of_not_prefix {pat cs : List Char} {fuel : ℕ} (h : ¬ pat <+: cs) :
    trimStart pat fuel cs = cs := by
  cases fuel with
  | zero => rfl
  | succ fuel => rw [trimStart, if_neg h]

/-- A prefix is taken away, once. -/
theorem trim_start_matches_append {pat : String} {cs : List Char} (hpat : pat.toList ≠ [])
    (h : ¬ pat.toList <+: cs) : trim_start_matches pat (pat.toList ++ cs) = cs := by
  obtain ⟨fuel, hfuel⟩ : ∃ fuel, (pat.toList ++ cs).length = fuel + 1 := by
    have hpos := List.length_pos_iff.2 hpat
    exact ⟨(pat.toList ++ cs).length - 1, by rw [List.length_append]; omega⟩
  rw [trim_start_matches, hfuel, trimStart, if_pos (List.prefix_append _ _), List.drop_left,
    trimStart_of_not_prefix h]

theorem trim_start_matches_of_not_prefix {pat : String} {cs : List Char}
    (h : ¬ pat.toList <+: cs) : trim_start_matches pat cs = cs := trimStart_of_not_prefix h

/-- A text of digits is read as its number. -/
theorem parse_u16_of_digits {digits : List Char} {port : UInt16} (hne : digits ≠ [])
    (hdigits : ∀ c ∈ digits, c.isDigit = true) (hport : Nat.ofDigitChars 10 digits 0 = port.toNat) :
    parse_u16 digits = some port := by
  have hplain : dropPlus digits = digits := by
    unfold dropPlus
    split
    · exact absurd (hdigits '+' List.mem_cons_self) (by decide)
    · rfl
  unfold parse_u16
  rw [hplain, if_pos ⟨hne, List.all_eq_true.2 hdigits⟩, hport, if_pos port.toNat_lt]
  exact congrArg some (UInt16.ofNat_toNat)

theorem parse_eq_some {cs : List Char} {ip : IpAddr} (h : IpAddr.parse cs = some ip) :
    (∃ octets, read_ipv4_addr cs = some (octets, []) ∧ ip = .ofOctets octets) ∨
      ∃ groups, read_ipv6_addr cs = some (groups, []) ∧ ip = .ofGroups groups := by
  unfold IpAddr.parse read_ip_addr at h
  split at h
  · next ip' hread =>
    cases h
    split at hread
    · next octets rest hv4 =>
      cases hread
      exact .inl ⟨octets, hv4, rfl⟩
    · obtain ⟨⟨groups, rest⟩, hv6, heq⟩ := Option.map_eq_some_iff.1 hread
      cases heq
      exact .inr ⟨groups, hv6, rfl⟩
  · cases h

/-- **A group alone is no address.** -/
theorem parse_of_group {cs : List Char} (h : ∀ c ∈ cs, digitVal c < 16) :
    IpAddr.parse cs = none := by
  by_contra hsome
  obtain ⟨ip, hip⟩ := Option.ne_none_iff_exists'.1 hsome
  rcases parse_eq_some hip with ⟨octets, hv4, -⟩ | ⟨groups, hv6, -⟩
  · obtain ⟨text, rfl, hdot, -⟩ := read_ipv4_addr_eq hv4
    exact absurd (h '.' (List.mem_append_left _ hdot)) (by decide)
  · obtain ⟨group, after, -, rfl⟩ := read_ipv6_addr_eq hv6
    exact absurd (h ':' (List.mem_append_right _ List.mem_cons_self)) (by decide)

/-- No bracket is at an end of a text without brackets. -/
theorem trim_brackets {cs : List Char} (hopen : '[' ∉ cs) (hclose : ']' ∉ cs) :
    ((cs.dropWhile (· = '[')).reverse.dropWhile (· = ']')).reverse = cs := by
  have hdrop : ∀ {c : Char} {l : List Char}, c ∉ l → l.dropWhile (· = c) = l := by
    intro c l hc
    cases l with
    | nil => rfl
    | cons c' l =>
      refine List.dropWhile_cons_of_neg ?_
      simpa using fun h : c' = c => hc (h ▸ List.mem_cons_self)
  rw [hdrop hopen, hdrop (by simpa using hclose), List.reverse_reverse]

namespace Endpoint

variable {u : Endpoint} {to_socket_addrs : String → Option IpAddr}

/-- What the host of an endpoint is written with. -/
def IsHostChar (c : Char) : Prop := IsAddrChar c ∨ c = '[' ∨ c = ']'

theorem host_cases (u : Endpoint) :
    (∃ bits octets, u.ip = .V4 bits ∧ u.host = u.literal ∧
        read_ipv4_addr u.literal = some (octets, [])) ∨
      ∃ bits groups, u.ip = .V6 bits ∧ u.host = '[' :: (u.literal ++ [']']) ∧
        read_ipv6_addr u.literal = some (groups, []) := by
  rcases parse_eq_some u.parse_literal with ⟨octets, hv4, hip⟩ | ⟨groups, hv6, hip⟩
  · exact .inl ⟨_, octets, hip, by rw [host, hip, IpAddr.ofOctets], hv4⟩
  · exact .inr ⟨_, groups, hip, by rw [host, hip, IpAddr.ofGroups], hv6⟩

theorem isHostChar_host : ∀ c ∈ u.host, IsHostChar c := by
  rcases host_cases u with ⟨-, octets, -, hhost, hread⟩ | ⟨-, groups, -, hhost, hread⟩
  · obtain ⟨text, hliteral, htext⟩ := takes_read_ipv4_addr hread
    rw [hhost, hliteral, List.append_nil]
    exact fun c hc => .inl (htext c hc)
  · obtain ⟨text, hliteral, htext⟩ := takes_read_ipv6_addr hread
    rw [hhost, hliteral, List.append_nil]
    intro c hc
    rcases List.mem_cons.1 hc with rfl | hc
    · exact .inr (.inl rfl)
    · rcases List.mem_append.1 hc with hc | hc
      · exact .inl (htext c hc)
      · exact .inr (.inr (List.mem_singleton.1 hc))

theorem slash_not_mem (u : Endpoint) : '/' ∉ u.host ++ ':' :: u.digits := by
  intro hmem
  rcases List.mem_append.1 hmem with hmem | hmem
  · rcases isHostChar_host _ hmem with h | h | h
    · exact absurd h (by unfold IsAddrChar; decide)
    · cases h
    · cases h
  · rcases List.mem_cons.1 hmem with h | hmem
    · cases h
    · exact absurd (u.isDigit_digits _ hmem) (by decide)

/-- The scheme is taken away. -/
theorem clean_text (u : Endpoint) :
    trim_start_matches "https://" (trim_start_matches "http://" u.text.toList) =
      (u.host ++ ':' :: u.digits) ++ u.path := by
  have hrest : u.host ++ ':' :: (u.digits ++ u.path) = (u.host ++ ':' :: u.digits) ++ u.path := by
    simp
  -- no host begins as a scheme does
  have hnoscheme : ∀ cs : List Char, ¬ 'h' :: cs <+: (u.host ++ ':' :: u.digits) ++ u.path := by
    rintro cs ⟨t, ht⟩
    rw [← hrest] at ht
    cases hhost : u.host with
    | nil =>
      rw [hhost] at ht
      cases ht
    | cons c host =>
      rw [hhost] at ht
      obtain ⟨rfl, -⟩ := List.cons.inj ht
      rcases isHostChar_host 'h' (hhost ▸ List.mem_cons_self) with h | h | h
      · exact absurd h (by unfold IsAddrChar; decide)
      · cases h
      · cases h
  have hnoscheme_http : ¬ "http://".toList <+: (u.host ++ ':' :: u.digits) ++ u.path :=
    hnoscheme ("http://".toList.drop 1)
  have hnoscheme_https : ¬ "https://".toList <+: (u.host ++ ':' :: u.digits) ++ u.path :=
    hnoscheme ("https://".toList.drop 1)
  rw [text, String.toList_ofList, hrest, scheme]
  cases u.https with
  | true =>
    have hother : ¬ "http://".toList <+: "https://".toList ++
        ((u.host ++ ':' :: u.digits) ++ u.path) := by
      have hs : "http://".toList = 'h' :: 't' :: 't' :: 'p' :: ':' :: ['/', '/'] := by decide
      have hss : "https://".toList = 'h' :: 't' :: 't' :: 'p' :: 's' :: [':', '/', '/'] := by
        decide
      rw [hs, hss]
      simp [List.cons_prefix_cons]
    rw [if_pos rfl, trim_start_matches_of_not_prefix hother]
    exact trim_start_matches_append (by decide) hnoscheme_https
  | false =>
    rw [if_neg (by decide), trim_start_matches_append (by decide) hnoscheme_http]
    exact trim_start_matches_of_not_prefix hnoscheme_https

/-- The path is taken away. -/
theorem head_splitOn_slash (u : Endpoint) (clean : List Char) :
    ((((u.host ++ ':' :: u.digits) ++ u.path).splitOn '/').head?).getD clean =
      u.host ++ ':' :: u.digits := by
  cases hpath : u.path with
  | nil =>
    rw [List.append_nil, List.splitOn_eq_singleton (slash_not_mem u)]
    rfl
  | cons c path =>
    obtain rfl : c = '/' := u.head_path c (by rw [hpath]; rfl)
    rw [List.splitOn_append_cons_self, List.splitOn_eq_singleton (slash_not_mem u)]
    rfl

theorem colon_not_mem_digits (u : Endpoint) : ':' ∉ u.digits :=
  fun hmem => absurd (u.isDigit_digits _ hmem) (by decide)

/-- What is read of an endpoint, from the pieces of its host. -/
theorem parse_endpoint_text (u : Endpoint) (to_socket_addrs : String → Option IpAddr) :
    parse_endpoint to_socket_addrs u.text =
      (let parts := u.host.splitOn ':' ++ [u.digits]
      let host := (parts.head?).getD "127.0.0.1".toList
      let port := ((parts[1]?).bind parse_u16).getD 50051
      let trimmed := ((host.dropWhile (· = '[')).reverse.dropWhile (· = ']')).reverse
      (((IpAddr.parse trimmed).or
        (to_socket_addrs (String.ofList host ++ ":" ++ toString port))).getD localhost, port)) := by
  unfold parse_endpoint
  dsimp only
  rw [clean_text, head_splitOn_slash, List.splitOn_append_cons_self,
    List.splitOn_eq_singleton (colon_not_mem_digits u)]

/-- **An IPv4 address and its port are read.** -/
theorem parse_endpoint_v4 {octets : List ℕ} (hhost : u.host = u.literal)
    (hread : read_ipv4_addr u.literal = some (octets, [])) :
    parse_endpoint to_socket_addrs u.text = (u.ip, u.port) := by
  obtain ⟨text, hliteral, -, -, htext⟩ := read_ipv4_addr_eq hread
  rw [List.append_nil] at hliteral
  have hnot : ∀ c, ¬ (digitVal c < 10 ∨ c = '.') → c ∉ u.literal := by
    intro c hc hmem
    exact hc (htext c (hliteral ▸ hmem))
  rw [parse_endpoint_text, hhost, List.splitOn_eq_singleton (hnot ':' (by decide))]
  simp only [List.singleton_append, List.head?_cons, Option.getD_some, List.getElem?_cons_succ,
    List.getElem?_cons_zero, Option.bind_some,
    parse_u16_of_digits u.digits_ne_nil u.isDigit_digits u.ofDigits_digits,
    trim_brackets (hnot '[' (by decide)) (hnot ']' (by decide)), u.parse_literal, Option.some_or]

/-- **Of an IPv6 address a piece is read**, which is no address. -/
theorem parse_endpoint_v6 {groups : List ℕ} (hhost : u.host = '[' :: (u.literal ++ [']']))
    (hread : read_ipv6_addr u.literal = some (groups, [])) :
    parse_endpoint to_socket_addrs u.text =
      ((to_socket_addrs (String.ofList u.firstPiece ++ ":" ++ toString u.secondPort)).getD
        localhost, u.secondPort) := by
  obtain ⟨group, after, hgroup, hliteral⟩ := read_ipv6_addr_eq hread
  have hnot : ∀ c, ¬ digitVal c < 16 → c ∉ group := fun c hc hmem => hc (hgroup c hmem)
  have hcolon : ':' ∉ '[' :: group := by
    rw [List.mem_cons, not_or]
    exact ⟨by decide, hnot ':' (by decide)⟩
  have hpieces : u.host.splitOn ':' = ('[' :: group) :: (after ++ [']']).splitOn ':' := by
    have hsplit : u.host = ('[' :: group) ++ ':' :: (after ++ [']']) := by
      rw [hhost, hliteral]
      simp
    rw [hsplit, List.splitOn_append_cons_self, List.splitOn_eq_singleton hcolon]
    rfl
  have hfirst : u.firstPiece = '[' :: group := by
    rw [firstPiece, hliteral, List.takeWhile_append_of_pos, List.takeWhile_cons_of_neg (by decide),
      List.append_nil]
    exact fun c hc => decide_eq_true fun h => hnot ':' (by decide) (h ▸ hc)
  have hpieces' : (u.literal ++ [']']).splitOn ':' = group :: (after ++ [']']).splitOn ':' := by
    have hsplit : u.literal ++ [']'] = group ++ ':' :: (after ++ [']']) := by
      rw [hliteral]
      simp
    rw [hsplit, List.splitOn_append_cons_self,
      List.splitOn_eq_singleton fun h => hcolon (List.mem_cons_of_mem _ h)]
    rfl
  have htrim : ((('[' :: group).dropWhile (· = '[')).reverse.dropWhile (· = ']')).reverse =
      group := by
    rw [List.dropWhile_cons_of_pos (by decide)]
    exact trim_brackets (hnot '[' (by decide)) (hnot ']' (by decide))
  -- the second piece is there, as the text goes on after the first colon
  obtain ⟨second, more, hsecond⟩ := List.exists_cons_of_ne_nil
    (List.splitOn_ne_nil ':' (after ++ [']']))
  have hport : u.secondPort = (parse_u16 second).getD 50051 := by
    rw [secondPort, hpieces', hsecond]
    rfl
  rw [parse_endpoint_text, hpieces, hsecond, hfirst, hport]
  simp only [List.cons_append, List.head?_cons, Option.getD_some, List.getElem?_cons_succ,
    List.getElem?_cons_zero, Option.bind_some, htrim, parse_of_group hgroup, Option.none_or]

/-- **An endpoint is read as it is meant** exactly where its address is an
IPv4 address, or a piece of it happens to be looked up as the address. -/
theorem parse_endpoint_eq_iff (u : Endpoint) (to_socket_addrs : String → Option IpAddr) :
    parse_endpoint to_socket_addrs u.text = (u.ip, u.port) ↔ u.ReadAsMeant to_socket_addrs := by
  rcases host_cases u with ⟨bits, octets, hip, hhost, hread⟩ | ⟨bits, groups, hip, hhost, hread⟩
  · refine iff_of_true (parse_endpoint_v4 hhost hread) ?_
    rw [ReadAsMeant, hip]
    trivial
  · rw [parse_endpoint_v6 hhost hread, Prod.mk.injEq, ReadAsMeant, hip]
    refine and_congr_left fun _ => ?_
    cases to_socket_addrs (String.ofList u.firstPiece ++ ":" ++ toString u.secondPort) with
    | none =>
      -- the host itself has an IPv4 address
      refine iff_of_false (fun h => ?_) (fun h => (by cases h))
      cases h
    | some ip => rw [Option.getD_some, Option.some.injEq]

end Endpoint

/-! ## The channel -/

variable {φ : Type*} {mgr : IsolationManager} {ip : IpAddr} {port : UInt16}

/-- A rule that matches decides, and all rules accept. -/
theorem eval_of_matches {c : Chain Expr} {r : Rule Expr} {p : Seen φ} (hr : r ∈ c.rules)
    (hmatches : r.Matches Expr.holds p = true) (haccept : ∀ r ∈ c.rules, r.verdict = .accept) :
    c.eval Expr.holds p = .accept := by
  unfold Chain.eval
  cases hfind : c.rules.find? (·.Matches Expr.holds p) with
  | none => exact absurd hmatches (List.find?_eq_none.1 hfind r hr)
  | some r' => exact haccept r' (List.mem_of_find?_eq_some hfind)

/-- **The rules let through what goes to the server and what comes from
it.** -/
theorem keepsChannel_self (mgr : IsolationManager) :
    KeepsChannel φ mgr mgr.fleet_ip mgr.fleet_port := by
  intro p state other
  constructor
  · intro hip htcp c hc hhook
    obtain ⟨chain, hchain, rfl⟩ := List.mem_map.1 hc
    simp only [IsolationManager.table, List.mem_cons, List.not_mem_nil, or_false] at hchain
    rcases hchain with rfl | rfl | rfl
    · cases hhook
    · refine eval_of_matches (List.mem_cons_of_mem _ (List.mem_cons_of_mem _ List.mem_cons_self))
        ?_ (by simp [IsolationManager.output_chain])
      simp [Rule.Matches, Expr.holds, hip, htcp]
    · cases hhook
  · intro hip htcp c hc hhook
    obtain ⟨chain, hchain, rfl⟩ := List.mem_map.1 hc
    simp only [IsolationManager.table, List.mem_cons, List.not_mem_nil, or_false] at hchain
    rcases hchain with rfl | rfl | rfl
    · refine eval_of_matches (List.mem_cons_of_mem _ (List.mem_cons_of_mem _ List.mem_cons_self))
        ?_ (by simp [IsolationManager.input_chain])
      simp [Rule.Matches, Expr.holds, hip, htcp]
    · cases hhook
    · cases hhook

/-- **No channel is kept but to the server of the rules.** -/
theorem eq_of_keepsChannel [Inhabited φ] (h : KeepsChannel φ mgr ip port) :
    mgr.fleet_ip = ip ∧ mgr.fleet_port = port := by
  -- a packet that opens a flow, and is not on loopback
  let p : Packet φ := ⟨none, none, ip, ip, .tcp 0 port, default⟩
  let s : Host φ := ⟨some mgr.table, [], .empty, []⟩
  have hpasses : Passes s.chains .output ⟨p, .new⟩ := by
    have hchains : s.chains = mgr.table.chains.map (Chain.base Expr.holds) := List.append_nil _
    rw [hchains]
    exact (h p .new 0).1 rfl rfl
  obtain ⟨-, hloopback | hfleet | hknown⟩ :=
    Host.contained_of_passes (s := s) [] rfl (Table.Copy.refl _)
      (show s.conntrack.Allows p.flow .new from trivial) hpasses
  · cases hloopback
  · obtain ⟨hip, sport, htcp⟩ := hfleet
    exact ⟨hip.symm, (Transport.tcp.inj htcp).2.symm⟩
  · rcases hknown with hknown | hknown <;> cases hknown

theorem keepsChannel_iff [Inhabited φ] :
    KeepsChannel φ mgr ip port ↔ mgr.fleet_ip = ip ∧ mgr.fleet_port = port := by
  constructor
  · exact eq_of_keepsChannel
  · rintro ⟨rfl, rfl⟩
    exact keepsChannel_self mgr

/-- `IsolationManager::new`, with what the endpoint is read as. -/
def managerOf (to_socket_addrs : String → Option IpAddr) (endpoint : String) : IsolationManager :=
  ⟨(parse_endpoint to_socket_addrs endpoint).1, (parse_endpoint to_socket_addrs endpoint).2⟩

/-- **The channel to the fleet server is kept** by the isolation, and its
endpoint is read as it is meant, exactly where the address in it is an IPv4
address, or a piece of it happens to be looked up as the address. -/
theorem parse_endpoint_keepsChannel_iff [Inhabited φ] (u : Endpoint)
    (to_socket_addrs : String → Option IpAddr) :
    (parse_endpoint to_socket_addrs u.text = (u.ip, u.port) ↔ u.ReadAsMeant to_socket_addrs) ∧
      (KeepsChannel φ (managerOf to_socket_addrs u.text) u.ip u.port ↔
        u.ReadAsMeant to_socket_addrs) := by
  refine ⟨u.parse_endpoint_eq_iff to_socket_addrs, ?_⟩
  rw [← u.parse_endpoint_eq_iff to_socket_addrs, keepsChannel_iff]
  simp only [managerOf, Prod.ext_iff]

/-- `http://[2001:db8::1]:50051/`. -/
def ipv6Endpoint : Endpoint where
  https := false
  literal := "2001:db8::1".toList
  ip := .V6 0x20010db8000000000000000000000001#128
  parse_literal := by decide
  digits := "50051".toList
  port := 50051
  digits_ne_nil := by decide
  isDigit_digits := List.all_eq_true.1 (by decide)
  ofDigits_digits := by decide
  path := ['/']
  head_path := fun _ hc => (Option.mem_some.1 hc).symm

/-- **The isolation cuts off a server with an IPv6 address.** -/
theorem not_keepsChannel_ipv6Endpoint :
    ipv6Endpoint.text = "http://[2001:db8::1]:50051/" ∧
      parse_endpoint (fun _ => none) ipv6Endpoint.text = (localhost, 50051) ∧
      ¬ KeepsChannel ℕ (managerOf (fun _ => none) ipv6Endpoint.text) ipv6Endpoint.ip
        ipv6Endpoint.port := by
  have hparse : parse_endpoint (fun _ => none) ipv6Endpoint.text = (localhost, 50051) := by decide
  refine ⟨by decide, hparse, fun h => ?_⟩
  have hip := (eq_of_keepsChannel h).1
  rw [managerOf, hparse] at hip
  cases hip

end AigisZero.Agent
