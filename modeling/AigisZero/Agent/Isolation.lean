import AigisZero.Library.Json
import AigisZero.Library.Machine
import AigisZero.Library.Netfilter
import AigisZero.Library.Utf8

/-!
# Network isolation

On the command of the server the agent loads a table that drops all but
loopback, the fleet server and the flows there are, and on another it
deletes the table. The table lets in what is established or related, so
what gets through depends on all that was let through before: every
accepted packet has its flow from the server, from loopback, or from the
time before the isolation.
-/

namespace AigisZero.Agent

open Netfilter

/-- An address. -/
inductive IpAddr where
  | V4 (bits : BitVec 32)
  | V6 (bits : BitVec 128)
deriving DecidableEq, Repr

/-- The family of an address, as nftables calls it: the `ip_family` of
`isolate`. -/
def IpAddr.family : IpAddr → String
  | .V4 _ => "ip"
  | .V6 _ => "ip6"

/-- `IsolationManager`. -/
structure IsolationManager where
  fleet_ip : IpAddr
  fleet_port : UInt16
deriving DecidableEq, Repr

/-! ## The ruleset -/

/-- What a rule can look at. -/
inductive Expr where
  | ct_state (states : List CtState)
  | iif (name : String)
  | oif (name : String)
  | saddr (family : String) (ip : IpAddr)
  | daddr (family : String) (ip : IpAddr)
  | tcp_sport (port : UInt16)
  | tcp_dport (port : UInt16)
deriving DecidableEq, Repr

namespace IsolationManager

variable (mgr : IsolationManager)

/-- The text that `isolate` hands to `nft`, with the text of an address. -/
def ruleset (ipText : IpAddr → String) : String :=
  "table inet aigis_isolation \x7b\n" ++
    "    chain input \x7b\n" ++
    "        type filter hook input priority -100; policy drop;\n" ++
    "        ct state established,related accept\n" ++
    "        iif lo accept\n" ++
    "        " ++ mgr.fleet_ip.family ++ " saddr " ++ ipText mgr.fleet_ip ++ " tcp sport " ++
      toString mgr.fleet_port ++ " accept\n" ++
    "    \x7d\n" ++
    "    chain output \x7b\n" ++
    "        type filter hook output priority -100; policy drop;\n" ++
    "        ct state established,related accept\n" ++
    "        oif lo accept\n" ++
    "        " ++ mgr.fleet_ip.family ++ " daddr " ++ ipText mgr.fleet_ip ++ " tcp dport " ++
      toString mgr.fleet_port ++ " accept\n" ++
    "    \x7d\n" ++
    "    chain forward \x7b\n" ++
    "        type filter hook forward priority -100; policy drop;\n" ++
    "    \x7d\n" ++
    "\x7d"

/-- `chain input` of the text. -/
def input_chain : Chain Expr where
  name := "input"
  hook := .input
  priority := -100
  policy := .drop
  rules :=
    [⟨[.ct_state [.established, .related]], .accept⟩,
      ⟨[.iif "lo"], .accept⟩,
      ⟨[.saddr mgr.fleet_ip.family mgr.fleet_ip, .tcp_sport mgr.fleet_port], .accept⟩]

/-- `chain output`. -/
def output_chain : Chain Expr where
  name := "output"
  hook := .output
  priority := -100
  policy := .drop
  rules :=
    [⟨[.ct_state [.established, .related]], .accept⟩,
      ⟨[.oif "lo"], .accept⟩,
      ⟨[.daddr mgr.fleet_ip.family mgr.fleet_ip, .tcp_dport mgr.fleet_port], .accept⟩]

/-- `chain forward`. -/
def forward_chain : Chain Expr where
  name := "forward"
  hook := .forward
  priority := -100
  policy := .drop
  rules := []

/-- The table that the text describes. -/
def table : Table Expr where
  family := "inet"
  name := "aigis_isolation"
  chains := [mgr.input_chain, mgr.output_chain, forward_chain]

end IsolationManager

/-! ## How a table is written -/

/-- The words of nftables. -/
def hookText : Hook → String
  | .input => "input"
  | .output => "output"
  | .forward => "forward"

def verdictText : Verdict → String
  | .accept => "accept"
  | .drop => "drop"

def ctStateText : CtState → String
  | .new => "new"
  | .established => "established"
  | .related => "related"
  | .invalid => "invalid"
  | .untracked => "untracked"

def exprText (ipText : IpAddr → String) : Expr → String
  | .ct_state states => "ct state " ++ ",".intercalate (states.map ctStateText)
  | .iif name => "iif " ++ name
  | .oif name => "oif " ++ name
  | .saddr family ip => family ++ " saddr " ++ ipText ip
  | .daddr family ip => family ++ " daddr " ++ ipText ip
  | .tcp_sport port => "tcp sport " ++ toString port
  | .tcp_dport port => "tcp dport " ++ toString port

def ruleText (ipText : IpAddr → String) (r : Rule Expr) : String :=
  "        " ++ " ".intercalate (r.exprs.map (exprText ipText)) ++ " " ++
    verdictText r.verdict ++ "\n"

/-- The lines before the rules of a chain. -/
def chainHead (name : String) (hook : Hook) (priority : ℤ) (policy : Verdict) : String :=
  "    chain " ++ name ++ " \x7b\n" ++
    "        type filter hook " ++ hookText hook ++ " priority " ++ toString priority ++
      "; policy " ++ verdictText policy ++ ";\n"

def chainText (ipText : IpAddr → String) (c : Chain Expr) : String :=
  chainHead c.name c.hook c.priority c.policy ++ String.join (c.rules.map (ruleText ipText)) ++
    "    \x7d\n"

def tableText (ipText : IpAddr → String) (t : Table Expr) : String :=
  "table " ++ t.family ++ " " ++ t.name ++ " \x7b\n" ++
    String.join (t.chains.map (chainText ipText)) ++ "\x7d"

/-- A rule of two expressions. -/
theorem ruleText_pair (ipText : IpAddr → String) (e e' : Expr) :
    ruleText ipText ⟨[e, e'], .accept⟩ =
      "        " ++ (exprText ipText e ++ (" " ++ (exprText ipText e' ++ " accept\n"))) := by
  have hjoin : " ".intercalate [exprText ipText e, exprText ipText e'] =
      exprText ipText e ++ " " ++ exprText ipText e' := rfl
  have hend : " accept\n" = " " ++ ("accept" ++ "\n") := by decide
  rw [ruleText, List.map_cons, List.map_cons, List.map_nil, hjoin, hend]
  simp only [verdictText, String.append_assoc]

/-- The heads of the chains of the table. -/
theorem chainHead_eq :
    chainHead "input" .input (-100) .drop = "    chain input \x7b\n" ++
        "        type filter hook input priority -100; policy drop;\n" ∧
      chainHead "output" .output (-100) .drop = "    chain output \x7b\n" ++
        "        type filter hook output priority -100; policy drop;\n" ∧
      chainHead "forward" .forward (-100) .drop = "    chain forward \x7b\n" ++
        "        type filter hook forward priority -100; policy drop;\n" := by
  decide

/-- **The text of `isolate` is that of the table.** -/
theorem ruleset_eq_tableText (mgr : IsolationManager) (ipText : IpAddr → String) :
    mgr.ruleset ipText = tableText ipText mgr.table := by
  have hct : ruleText ipText ⟨[.ct_state [.established, .related]], .accept⟩ =
      "        ct state established,related accept\n" := by
    show "        " ++ " ".intercalate
      ["ct state " ++ ",".intercalate ["established", "related"]] ++
      " " ++ "accept" ++ "\n" = _
    decide
  have hiif : ruleText ipText ⟨[.iif "lo"], .accept⟩ = "        iif lo accept\n" := by
    show "        " ++ " ".intercalate ["iif " ++ "lo"] ++ " " ++ "accept" ++ "\n" = _
    decide
  have hoif : ruleText ipText ⟨[.oif "lo"], .accept⟩ = "        oif lo accept\n" := by
    show "        " ++ " ".intercalate ["oif " ++ "lo"] ++ " " ++ "accept" ++ "\n" = _
    decide
  have htable : "table inet aigis_isolation \x7b\n" =
      "table " ++ ("inet" ++ (" " ++ ("aigis_isolation" ++ " \x7b\n"))) := by decide
  have hsport : " tcp sport " = " " ++ "tcp sport " := by decide
  have hdport : " tcp dport " = " " ++ "tcp dport " := by decide
  obtain ⟨hinput, houtput, hforward⟩ := chainHead_eq
  unfold IsolationManager.ruleset
  simp only [tableText, IsolationManager.table, IsolationManager.input_chain,
    IsolationManager.output_chain, IsolationManager.forward_chain, chainText, List.map_cons,
    List.map_nil, String.join_cons, String.join_nil, hinput, houtput, hforward, hct, hiif, hoif,
    ruleText_pair, exprText, htable, hsport, hdport, String.append_assoc, String.append_empty]

/-! ## The commands -/

/-- How a run of `nft -f -` goes. What is not run to its end may still have
been applied. -/
inductive NftLoad where
  | unspawned (e : String)
  | unwritten (e : String) (applied : Bool)
  | unwaited (e : String) (applied : Bool)
  | exited (success : Bool) (stderr : Bytes)

/-- The ruleset is applied, all of it at once. -/
def NftLoad.applied : NftLoad → Bool
  | .unspawned _ => false
  | .unwritten _ applied => applied
  | .unwaited _ applied => applied
  | .exited success _ => success

/-- How a run of `nft delete table` goes. -/
inductive NftDelete where
  | unexecuted (e : String)
  | exited (success : Bool) (stderr : Bytes)

/-- The table is deleted. -/
def NftDelete.applied : NftDelete → Bool
  | .unexecuted _ => false
  | .exited success _ => success

/-- `IsolationManager::isolate`: what it returns. -/
def isolate : NftLoad → Except String Unit
  | .unspawned _ => .error "Failed to spawn nft process"
  | .unwritten _ _ => .error "Failed to write ruleset to nft stdin"
  | .unwaited _ _ => .error "Failed to wait for nft output"
  | .exited true _ => .ok ()
  | .exited false stderr => .error ("nft failed to apply rules: " ++ fromUtf8Lossy stderr)

/-- The text contains another. -/
def containsText (text part : String) : Bool :=
  text.toList.tails.any fun rest => part.toList.isPrefixOf rest

/-- `IsolationManager::de_isolate`: what it returns. A table that does not
exist is no error, nor is whatever could not be processed. -/
def de_isolate : NftDelete → Except String Unit
  | .unexecuted _ => .error "Failed to execute nft command"
  | .exited true _ => .ok ()
  | .exited false stderr =>
    let err := fromUtf8Lossy stderr
    let err_lower := err.toLower
    if !containsText err_lower "no such file or directory" &&
        !containsText err_lower "does not exist" &&
        !containsText err_lower "could not process rule" then
      .error ("nft delete table failed: " ++ err)
    else .ok ()

/-- The commands of the server. -/
inductive Command where
  | Isolate (isolate : Bool) (reason : String)
  | ConfigUpdate
  | Ack (sequence_id : String)
deriving DecidableEq, Repr

/-- `CommandHandler::handle`. -/
def handle (command : Option Command) (load : NftLoad) (delete : NftDelete) : Except String Json :=
  match command with
  | none => .error "missing command"
  | some (.Isolate true _) => (isolate load).map fun _ => .obj [("status", .str "isolated")]
  | some (.Isolate false _) => (de_isolate delete).map fun _ => .obj [("status", .str "unisolated")]
  | some .ConfigUpdate => .ok (.obj [("status", .str "config_updated")])
  | some (.Ack _) => .ok (.obj [("status", .str "acked")])

/-! ## The host -/

/-- What a packet carries over IP. -/
inductive Transport where
  | tcp (sport dport : UInt16)
  | other (protocol : UInt8)
deriving DecidableEq, Repr

/-- A packet, with the flow that conntrack has it in. -/
structure Packet (φ : Type*) where
  iif : Option String
  oif : Option String
  saddr : IpAddr
  daddr : IpAddr
  transport : Transport
  flow : φ

/-- A packet as the filters see it. -/
structure Seen (φ : Type*) where
  packet : Packet φ
  state : CtState

/-- What an expression looks for. -/
def Expr.holds {φ : Type*} (e : Expr) (p : Seen φ) : Bool :=
  match e with
  | .ct_state states => decide (p.state ∈ states)
  | .iif name => decide (p.packet.iif = some name)
  | .oif name => decide (p.packet.oif = some name)
  | .saddr family ip => decide (p.packet.saddr.family = family ∧ p.packet.saddr = ip)
  | .daddr family ip => decide (p.packet.daddr.family = family ∧ p.packet.daddr = ip)
  | .tcp_sport port =>
    match p.packet.transport with
    | .tcp sport _ => decide (sport = port)
    | .other _ => false
  | .tcp_dport port =>
    match p.packet.transport with
    | .tcp _ dport => decide (dport = port)
    | .other _ => false

/-- A packet that was accepted at a hook, with the flows that are related to
its own from then on. -/
structure Accepted (φ : Type*) where
  hook : Hook
  packet : Packet φ
  related : List φ

namespace Accepted

variable {φ : Type*}

/-- The packet is on loopback. -/
def OnLoopback (x : Accepted φ) : Prop :=
  match x.hook with
  | .input => x.packet.iif = some "lo"
  | .output => x.packet.oif = some "lo"
  | .forward => False

/-- The packet is TCP, and its remote end is the fleet server. -/
def WithFleet (mgr : IsolationManager) (x : Accepted φ) : Prop :=
  match x.hook with
  | .input =>
    x.packet.saddr = mgr.fleet_ip ∧ ∃ dport, x.packet.transport = .tcp mgr.fleet_port dport
  | .output =>
    x.packet.daddr = mgr.fleet_ip ∧ ∃ sport, x.packet.transport = .tcp sport mgr.fleet_port
  | .forward => False

end Accepted

/-- The network of the host. -/
structure Host (φ : Type*) where
  /-- The table of the agent. -/
  isolation : Option (Table Expr)
  /-- The base chains of all other tables. -/
  others : List (BaseChain (Seen φ))
  conntrack : Conntrack φ
  /-- The packets accepted so far. -/
  accepted : List (Accepted φ)

/-- What can happen. -/
inductive HostAction (φ : Type*) where
  /-- A packet meets a hook; where it is accepted, some flows are related
  to its own from then on. -/
  | packet (hook : Hook) (packet : Packet φ) (state : CtState) (related : List φ)
  /-- Conntrack forgets flows. -/
  | forget (keep : φ → Bool)
  /-- The other tables change. -/
  | reconfigure (others : List (BaseChain (Seen φ)))
  /-- The agent handles a command. -/
  | command (command : Option Command) (load : NftLoad) (delete : NftDelete)

/-- The action does not delete the table. -/
def HostAction.Holds {φ : Type*} : HostAction φ → Prop
  | .command (some (.Isolate false _)) _ delete => delete.applied = false
  | _ => True

namespace Host

variable {φ : Type*}

/-- A host that has not been isolated and has seen no packet. -/
def boot (others : List (BaseChain (Seen φ))) : Host φ := ⟨none, others, .empty, []⟩

/-- All base chains of the host. -/
def chains (s : Host φ) : List (BaseChain (Seen φ)) :=
  (match s.isolation with
    | some table => table.chains.map (Chain.base Expr.holds)
    | none => []) ++ s.others

/-- A packet meets a hook. It has a state that conntrack allows. -/
def packet [DecidableEq φ] (s : Host φ) (hook : Hook) (p : Packet φ) (state : CtState)
    (related : List φ) : Option (Host φ) :=
  if s.conntrack.Allows p.flow state then
    if Passes s.chains hook ⟨p, state⟩ then
      some { s with
        conntrack := s.conntrack.accept p.flow related
        accepted := s.accepted ++ [⟨hook, p, related⟩] }
    else some s
  else none

/-- A command changes the table of the agent where `nft` applies it. -/
def command (mgr : IsolationManager) (s : Host φ) (command : Option Command) (load : NftLoad)
    (delete : NftDelete) : Option (Host φ) :=
  match command with
  | some (.Isolate true _) =>
    if load.applied then (mgr.table.load s.isolation).map fun t => { s with isolation := some t }
    else some s
  | some (.Isolate false _) =>
    if delete.applied then
      match s.isolation with
      | some _ => some { s with isolation := none }
      | none => none
    else some s
  | _ => some s

/-- **The host as a machine.** -/
def machine [DecidableEq φ] (mgr : IsolationManager) : Machine (Host φ) (HostAction φ) where
  step s
    | .packet hook p state related => s.packet hook p state related
    | .forget keep => some { s with conntrack := s.conntrack.forget keep }
    | .reconfigure others => some { s with others := others }
    | .command command load delete => s.command mgr command load delete

/-- **A flow descends** from loopback, from the fleet server, or from the
packets accepted before. A flow counts as established from its first
accepted packet on, as conntrack calls the answer to it established. -/
def Descends (mgr : IsolationManager) (before since : List (Accepted φ)) : φ → Prop :=
  Conntrack.Descends (fun x => x.packet.flow) Accepted.related
    (fun x => x ∈ before ∨ x.OnLoopback ∨ x.WithFleet mgr) (before ++ since)

/-- **The packet is contained**: it is not forwarded, and it is on loopback,
or with the fleet server, or its flow descends. -/
def Contained (mgr : IsolationManager) (before since : List (Accepted φ)) (x : Accepted φ) : Prop :=
  x.hook ≠ .forward ∧
    (x.OnLoopback ∨ x.WithFleet mgr ∨ Descends mgr before since x.packet.flow)

variable {mgr : IsolationManager} {s t : Host φ} {a : HostAction φ}
  {before since : List (Accepted φ)}

/-! ## What each action does -/

theorem packet_eq_some [DecidableEq φ] {hook : Hook} {p : Packet φ} {state : CtState}
    {related : List φ} (ht : s.packet hook p state related = some t) :
    s.conntrack.Allows p.flow state ∧
      (Passes s.chains hook ⟨p, state⟩ ∧ t = { s with
          conntrack := s.conntrack.accept p.flow related
          accepted := s.accepted ++ [⟨hook, p, related⟩] } ∨ t = s) := by
  obtain ⟨hallows, ht⟩ := Option.ite_none_right_eq_some.1 ht
  refine ⟨hallows, ?_⟩
  split at ht
  · next hpasses => exact .inl ⟨hpasses, (Option.some.inj ht).symm⟩
  · exact .inr (Option.some.inj ht).symm

/-- A command loads the table, deletes it, or leaves the host alone. -/
theorem command_eq_some {command : Option Command} {load : NftLoad} {delete : NftDelete}
    (ht : s.command mgr command load delete = some t) :
    (∃ reason u, command = some (.Isolate true reason) ∧ load.applied = true ∧
        mgr.table.load s.isolation = some u ∧ t = { s with isolation := some u }) ∨
      (∃ reason, command = some (.Isolate false reason) ∧ delete.applied = true ∧
        t = { s with isolation := none }) ∨
      t = s ∧ ∀ reason, command = some (.Isolate true reason) → load.applied = false := by
  unfold Host.command at ht
  split at ht
  · next reason =>
    split at ht
    · next happlied =>
      obtain ⟨u, hu, rfl⟩ := Option.map_eq_some_iff.1 ht
      exact .inl ⟨reason, u, rfl, happlied, hu, rfl⟩
    · next hnot =>
      exact .inr (.inr ⟨(Option.some.inj ht).symm, fun _ _ => Bool.eq_false_of_not_eq_true hnot⟩)
  · next reason =>
    split at ht
    · next happlied =>
      split at ht
      · exact .inr (.inl ⟨reason, rfl, happlied, (Option.some.inj ht).symm⟩)
      · cases ht
    · exact .inr (.inr ⟨(Option.some.inj ht).symm, fun _ h => by cases h⟩)
  · next hother _ =>
    exact .inr (.inr ⟨(Option.some.inj ht).symm, fun reason h => absurd h (hother reason)⟩)

/-! ## The table -/

theorem table_names (mgr : IsolationManager) : (mgr.table.chains.map Chain.name).Nodup := by
  show ["input", "output", "forward"].Nodup
  decide

/-- Loading the table leaves it as it is declared. -/
theorem copy_of_load {old : Option (Table Expr)} {u : Table Expr}
    (hold : ∀ v, old = some v → mgr.table.Copy v) (hu : mgr.table.load old = some u) :
    mgr.table.Copy u := by
  cases old with
  | none =>
    obtain rfl := Option.some.inj hu
    exact .refl _
  | some v =>
    obtain ⟨w, hw, hcopy⟩ := Table.load_copy (hold v rfl) (table_names mgr)
    obtain rfl := Option.some.inj (hu.symm.trans hw)
    exact hcopy

/-- A rule of the input or the output chain, where it matches. The chains
only differ in which end of the packet they look at. -/
theorem holds_of_rule {p : Seen φ} {r : Rule Expr} {lo addr port : Expr}
    (hr : r ∈ [⟨[.ct_state [.established, .related]], .accept⟩, ⟨[lo], .accept⟩,
      ⟨[addr, port], .accept⟩])
    (hmatches : ∀ e ∈ r.exprs, e.holds p = true) :
    lo.holds p = true ∨ (addr.holds p = true ∧ port.holds p = true) ∨
      Expr.holds (.ct_state [.established, .related]) p = true := by
  rcases List.mem_cons.1 hr with rfl | hr
  · exact .inr (.inr (hmatches _ (List.mem_singleton_self _)))
  · rcases List.mem_cons.1 hr with rfl | hr
    · exact .inl (hmatches _ (List.mem_singleton_self _))
    · obtain rfl := List.mem_singleton.1 hr
      have haddr := hmatches addr List.mem_cons_self
      have hport := hmatches port (List.mem_cons_of_mem _ (List.mem_singleton_self _))
      exact .inr (.inl ⟨haddr, hport⟩)

theorem knows_of_ct_state {p : Packet φ} {state : CtState}
    (hallows : s.conntrack.Allows p.flow state)
    (hstate : Expr.holds (.ct_state [.established, .related]) ⟨p, state⟩ = true) :
    s.conntrack.Knows p.flow := by
  have hmem : state ∈ [CtState.established, .related] := of_decide_eq_true hstate
  rcases List.mem_cons.1 hmem with rfl | hmem
  · exact .inl hallows
  · obtain rfl := List.mem_singleton.1 hmem
    exact .inr hallows

theorem holds_tcp_sport {port : UInt16} {p : Seen φ} :
    (Expr.tcp_sport port).holds p = true ↔ ∃ dport, p.packet.transport = .tcp port dport := by
  unfold Expr.holds
  cases p.packet.transport with
  | tcp sport dport => simp
  | other protocol => simp

theorem holds_tcp_dport {port : UInt16} {p : Seen φ} :
    (Expr.tcp_dport port).holds p = true ↔ ∃ sport, p.packet.transport = .tcp sport port := by
  unfold Expr.holds
  cases p.packet.transport with
  | tcp sport dport => simp
  | other protocol => simp

/-- **What the table lets through**: nothing is forwarded, and the rest is
on loopback, with the fleet server, or of a flow that conntrack knows. -/
theorem contained_of_passes {u : Table Expr} {hook : Hook} {p : Packet φ} {state : CtState}
    (related : List φ) (hisolation : s.isolation = some u) (hcopy : mgr.table.Copy u)
    (hallows : s.conntrack.Allows p.flow state) (hpasses : Passes s.chains hook ⟨p, state⟩) :
    hook ≠ .forward ∧ ((⟨hook, p, related⟩ : Accepted φ).OnLoopback ∨
      (⟨hook, p, related⟩ : Accepted φ).WithFleet mgr ∨ s.conntrack.Knows p.flow) := by
  have hchains : s.chains = u.chains.map (Chain.base Expr.holds) ++ s.others := by
    rw [chains, hisolation]
  rw [hchains] at hpasses
  cases hook with
  | forward =>
    -- the chain has no rules
    obtain ⟨r, hr, -⟩ := exists_rule_of_passes hcopy
      (show IsolationManager.forward_chain ∈ mgr.table.chains from
        List.mem_cons_of_mem _ (List.mem_cons_of_mem _ (List.mem_singleton_self _))) rfl hpasses
    cases hr
  | input =>
    obtain ⟨r, hr, hmatches⟩ := exists_rule_of_passes hcopy
      (show mgr.input_chain ∈ mgr.table.chains from
        List.mem_cons_self) rfl hpasses
    refine ⟨by decide, ?_⟩
    rcases holds_of_rule hr hmatches with hlo | ⟨hsaddr, hsport⟩ | hstate
    · have hiif : p.iif = some "lo" := of_decide_eq_true hlo
      exact .inl hiif
    · exact .inr (.inl ⟨(of_decide_eq_true hsaddr).2, holds_tcp_sport.1 hsport⟩)
    · exact .inr (.inr (knows_of_ct_state hallows hstate))
  | output =>
    obtain ⟨r, hr, hmatches⟩ := exists_rule_of_passes hcopy
      (show mgr.output_chain ∈ mgr.table.chains from
        List.mem_cons_of_mem _ List.mem_cons_self) rfl hpasses
    refine ⟨by decide, ?_⟩
    rcases holds_of_rule hr hmatches with hlo | ⟨hdaddr, hdport⟩ | hstate
    · have hoif : p.oif = some "lo" := of_decide_eq_true hlo
      exact .inl hoif
    · exact .inr (.inl ⟨(of_decide_eq_true hdaddr).2, holds_tcp_dport.1 hdport⟩)
    · exact .inr (.inr (knows_of_ct_state hallows hstate))

/-! ## Up to the isolation -/

/-- What holds of every state: the table is as declared, if it is there,
and what conntrack knows comes of the packets accepted. -/
structure Ready (mgr : IsolationManager) (s : Host φ) : Prop where
  table : ∀ u, s.isolation = some u → mgr.table.Copy u
  known : ∀ f, s.conntrack.Knows f →
    Conntrack.Descends (fun x => x.packet.flow) Accepted.related (fun _ => True) s.accepted f

theorem ready_boot {others : List (BaseChain (Seen φ))} : Ready mgr (boot others) where
  table u h := by cases h
  known f h := by
    rcases h with h | h <;> exact absurd h List.not_mem_nil

theorem ready_step [DecidableEq φ] (h : Ready mgr s) (ht : (machine mgr).step s a = some t) :
    Ready mgr t := by
  cases a with
  | packet hook p state related =>
    obtain ⟨-, ⟨-, rfl⟩ | rfl⟩ := packet_eq_some ht
    · exact ⟨h.table, Conntrack.descends_accept (x := ⟨hook, p, related⟩) h.known (.inl trivial)⟩
    · exact h
  | forget keep =>
    obtain rfl := Option.some.inj ht
    exact ⟨h.table, fun f hf => h.known f hf.of_forget⟩
  | reconfigure others =>
    obtain rfl := Option.some.inj ht
    exact ⟨h.table, h.known⟩
  | command command load delete =>
    rcases command_eq_some ht with ⟨-, u, -, -, hu, rfl⟩ | ⟨-, -, -, rfl⟩ | ⟨rfl, -⟩
    · refine ⟨fun v hv => ?_, h.known⟩
      obtain rfl := Option.some.inj hv
      exact copy_of_load h.table hu
    · exact ⟨fun v hv => (by cases hv), h.known⟩
    · exact h

/-! ## Since the isolation -/

/-- **The quarantine**: the table is there as declared, what conntrack knows
descends, and every packet accepted since is contained. -/
structure Quarantined (mgr : IsolationManager) (before since : List (Accepted φ)) (s : Host φ) :
    Prop where
  table : ∃ u, s.isolation = some u ∧ mgr.table.Copy u
  accepted : s.accepted = before ++ since
  known : ∀ f, s.conntrack.Knows f → Descends mgr before since f
  contained : ∀ earlier x later, since = earlier ++ x :: later → Contained mgr before earlier x

/-- It begins where the table is loaded. -/
theorem quarantined_of_ready {u : Table Expr} (h : Ready mgr s)
    (hisolation : s.isolation = some u) :
    Quarantined mgr s.accepted [] s where
  table := ⟨u, hisolation, h.table u hisolation⟩
  accepted := (List.append_nil _).symm
  known f hf := (h.known f hf).mono (fun x hx => List.mem_append_left _ hx) fun x hx _ => .inl hx
  contained earlier x later h := by cases earlier <;> cases h

/-- A contained packet is accepted. -/
theorem Quarantined.accept (h : Quarantined mgr before since s) (x : Accepted φ)
    (hx : Contained mgr before since x) : Quarantined mgr before (since ++ [x]) { s with
      conntrack := s.conntrack.accept x.packet.flow x.related
      accepted := s.accepted ++ [x] } where
  table := h.table
  accepted := by
    show s.accepted ++ [x] = before ++ (since ++ [x])
    rw [h.accepted, List.append_assoc]
  known := by
    have hroot : (x ∈ before ∨ x.OnLoopback ∨ x.WithFleet mgr) ∨
        Descends mgr before since x.packet.flow := by
      rcases hx.2 with hloopback | hfleet | hdescends
      · exact .inl (.inr (.inl hloopback))
      · exact .inl (.inr (.inr hfleet))
      · exact .inr hdescends
    have hknown := Conntrack.descends_accept (x := x) h.known hroot
    rw [List.append_assoc] at hknown
    exact hknown
  contained earlier y later heq := by
    rcases List.append_eq_append_iff.1 heq with ⟨rest, hearlier, hrest⟩ | ⟨rest, hsince, hrest⟩
    · -- the packet is the last one
      have hnil : rest = [] ∧ x = y := by
        cases rest with
        | nil => exact ⟨rfl, (List.cons.inj hrest).1⟩
        | cons z rest => exact absurd (List.cons.inj hrest).2.symm (by simp)
      obtain ⟨rfl, rfl⟩ := hnil
      rw [hearlier, List.append_nil]
      exact hx
    · cases rest with
      | nil =>
        obtain ⟨rfl, -⟩ := List.cons.inj hrest
        rw [List.append_nil] at hsince
        exact hsince ▸ hx
      | cons z rest =>
        obtain ⟨rfl, -⟩ := List.cons.inj hrest
        exact h.contained earlier y rest hsince

/-- **A step that does not delete the table keeps the quarantine.** -/
theorem quarantined_step [DecidableEq φ] (h : Quarantined mgr before since s) (hG : a.Holds)
    (ht : (machine mgr).step s a = some t) : ∃ since', Quarantined mgr before since' t := by
  obtain ⟨u, hisolation, hcopy⟩ := h.table
  cases a with
  | packet hook p state related =>
    obtain ⟨hallows, ⟨hpasses, rfl⟩ | rfl⟩ := packet_eq_some ht
    · refine ⟨_, h.accept ⟨hook, p, related⟩ ?_⟩
      obtain ⟨hhook, hcases⟩ := contained_of_passes related hisolation hcopy hallows hpasses
      exact ⟨hhook, hcases.imp_right fun hcases => hcases.imp_right (h.known _)⟩
    · exact ⟨since, h⟩
  | forget keep =>
    obtain rfl := Option.some.inj ht
    exact ⟨since, h.table, h.accepted, fun f hf => h.known f hf.of_forget, h.contained⟩
  | reconfigure others =>
    obtain rfl := Option.some.inj ht
    exact ⟨since, h.table, h.accepted, h.known, h.contained⟩
  | command command load delete =>
    rcases command_eq_some ht with ⟨-, v, -, -, hv, rfl⟩ | ⟨reason, rfl, hdeleted, -⟩ | ⟨rfl, -⟩
    · refine ⟨since, ⟨v, rfl, copy_of_load (fun w hw => ?_) hv⟩, h.accepted, h.known, h.contained⟩
      obtain rfl := Option.some.inj (hisolation.symm.trans hw)
      exact hcopy
    · rw [show delete.applied = false from hG] at hdeleted
      cases hdeleted
    · exact ⟨since, h⟩

theorem applied_of_isolate {load : NftLoad} (h : isolate load = .ok ()) : load.applied = true := by
  cases load with
  | unspawned e => cases h
  | unwritten e applied => cases h
  | unwaited e applied => cases h
  | exited success stderr =>
    cases success with
    | true => rfl
    | false => cases h

/-- A command that is answered as isolated has loaded the table. -/
theorem applied_of_handle {reason : String} {load : NftLoad} {delete : NftDelete} {j : Json}
    (h : handle (some (.Isolate true reason)) load delete = .ok j) : load.applied = true := by
  unfold handle at h
  cases hisolate : isolate load with
  | error e =>
    rw [hisolate] at h
    cases h
  | ok => exact applied_of_isolate hisolate

/-- **The quarantine contains**: from an `isolate` that returned `Ok` on,
and as long as no `de_isolate` deletes the table, every packet that the
host accepts is on loopback, or with the fleet server, or of a flow that
descends from such a packet or from those accepted before; and none is
forwarded. -/
theorem isolate_contains [DecidableEq φ] (mgr : IsolationManager)
    (others : List (BaseChain (Seen φ))) (l l' : List (HostAction φ)) (reason : String)
    (load : NftLoad) (delete : NftDelete) {s s' t : Host φ}
    (hbefore : (machine mgr).run (boot others) l = some s)
    (hisolate : (machine mgr).step s (.command (some (.Isolate true reason)) load delete) = some s')
    (hok : isolate load = .ok ()) (hsince : (machine mgr).run s' l' = some t)
    (hholds : (machine mgr).EveryStep (fun _ => HostAction.Holds) s' l') :
    ∃ since, t.accepted = s'.accepted ++ since ∧
      ∀ earlier x later, since = earlier ++ x :: later → Contained mgr s'.accepted earlier x := by
  have hready : Ready mgr s' :=
    ready_step (Machine.run_preserves (fun _ _ _ => ready_step) hbefore ready_boot) hisolate
  obtain ⟨u, hu⟩ : ∃ u, s'.isolation = some u := by
    have hcommand : s.command mgr (some (.Isolate true reason)) load delete = some s' := hisolate
    rcases command_eq_some hcommand with ⟨-, u, -, -, -, rfl⟩ | ⟨_, h, -⟩ | ⟨-, hnot⟩
    · exact ⟨u, rfl⟩
    · cases h
    · rw [applied_of_isolate hok] at hnot
      exact absurd (hnot reason rfl) (by decide)
  have hall : (machine mgr).Always (fun v => ∃ since, Quarantined mgr s'.accepted since v) s' l' :=
    Machine.always_of_everyStep (fun _ _ _ hv hG hw => quarantined_step hv.choose_spec hG hw)
      ⟨[], quarantined_of_ready hready hu⟩ hholds
  obtain ⟨since, hquarantined⟩ := hall.last hsince
  exact ⟨since, hquarantined.accepted, hquarantined.contained⟩

/-- A fleet server. -/
def smallManager : IsolationManager := ⟨.V4 0x01020304#32, 8443⟩

/-- A packet to an address and port, of a flow. -/
def outgoing (daddr : IpAddr) (dport : UInt16) (flow : ℕ) : Packet ℕ :=
  ⟨none, some "eth0", .V4 0x0a000001#32, daddr, .tcp 40000 dport, flow⟩

/-- The host is isolated again, and sends a packet to the server and one to
another address. -/
def smallTrace : List (HostAction ℕ) :=
  [.command (some (.Isolate true "malware")) (.exited true []) (.unexecuted ""),
    .packet .output (outgoing smallManager.fleet_ip 8443 0) .new [],
    .packet .output (outgoing (.V4 0x05060708#32) 8443 1) .new []]

/-- Of the two packets the first is accepted. -/
theorem isolate_contains_smallTrace :
    ∃ s' t, (machine smallManager).step (boot [])
        (.command (some (.Isolate true "malware")) (.exited true []) (.unexecuted "")) = some s' ∧
      (machine smallManager).run s' smallTrace = some t ∧ t.accepted.length = 1 ∧
      ∃ since, t.accepted = s'.accepted ++ since ∧ ∀ earlier x later,
        since = earlier ++ x :: later → Contained smallManager s'.accepted earlier x := by
  refine ⟨_, _, rfl, rfl, rfl, isolate_contains smallManager [] [] smallTrace "malware"
    (.exited true []) (.unexecuted "") rfl rfl rfl rfl ?_⟩
  refine Machine.everyStep_cons rfl trivial (Machine.everyStep_cons rfl trivial ?_)
  exact Machine.everyStep_cons rfl trivial trivial

end Host

end AigisZero.Agent
