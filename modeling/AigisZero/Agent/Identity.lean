import AigisZero.Agent.FleetClient
import AigisZero.Agent.SaveConfig
import AigisZero.Fleet.RegistryInvariant

/-!
# Who an agent is

An agent has no identity of its own. When it starts it tells the Fleet
Server what its host says of itself, the server finds or makes the node of
that machine, and the agent takes the identifier of the node and writes it
into its configuration. This module follows any number of hosts through any
number of starts, with the calls of everybody else between them: which of
them are one node, and what their configurations come to say.
-/

namespace AigisZero.Agent

open Fleet Toml Config

/-! ## What a host says of itself -/

/-- What is left of a file without the white space around it. -/
def trimmedId (id : Option String) : Option String :=
  (id.map fun id => String.ofList (trimLine id.toList)).filter (· ≠ "")

/-- `read_machine_id`, of the two files where they can be read. -/
def read_machine_id (etc dbus : Option String) : String :=
  ((trimmedId etc).or (trimmedId dbus)).getD "unknown-machine-id"

/-- The file `/etc/os-release`: its lines, none for one that is no text. -/
inductive OsRelease where
  | missing
  | unreadable
  | lines (ls : List (Option String))

/-- The names the loop over the lines has found. -/
structure OsNames where
  name : Option String
  version : Option String
  pretty_name : Option String

/-- `trim_matches('"')`. -/
def trimQuotes (l : List Char) : List Char :=
  ((l.dropWhile (· = '"')).reverse.dropWhile (· = '"')).reverse

/-- One line: a later name replaces an earlier one. -/
def OsNames.read (found : OsNames) (line_content : String) : OsNames :=
  let trimmed := trimLine line_content.toList
  if ['#'].isPrefixOf trimmed || trimmed.isEmpty then found
  else
    match trimmed.span (· ≠ '=') with
    | (_, []) => found
    | (key, _ :: val) =>
      let val := String.ofList (trimQuotes (trimLine val))
      match String.ofList (trimLine key) with
      | "PRETTY_NAME" => { found with pretty_name := some val }
      | "NAME" => { found with name := some val }
      | "VERSION" => { found with version := some val }
      | _ => found

/-- `get_os_version`. The lines end where one cannot be read. -/
def get_os_version : OsRelease → String
  | .missing => "Unknown Linux (os-release not found)"
  | .unreadable => "Unknown Linux (unable to open os-release)"
  | .lines ls =>
    let found := (ls.takeWhile Option.isSome).reduceOption.foldl OsNames.read ⟨none, none, none⟩
    match found.pretty_name with
    | some pretty => pretty
    | none =>
      let os_name := found.name.getD "Linux"
      match found.version with
      | some ver => os_name ++ " " ++ ver
      | none => os_name

/-- `env!("CARGO_PKG_VERSION")`. -/
def CARGO_PKG_VERSION : String := "0.1.0"

/-- Where the agent of a host stands. -/
inductive AgentPc where
  | stopped
  /-- It is enrolled with the configuration it read; saving its id is next. -/
  | enrolled (config : AgentConfig) (enroll : Bool) (node_id : Uuid)
  | started (node_id : Uuid)

/-- A host: its files, and its agent. -/
structure AgentHost where
  hostname : String
  etc_machine_id : Option String
  dbus_machine_id : Option String
  os_release : OsRelease
  /-- The configuration file. -/
  file : Bytes
  agent : AgentPc

namespace AgentHost

def machine_id (h : AgentHost) : String := read_machine_id h.etc_machine_id h.dbus_machine_id

/-- What the agent registers with. -/
def request (h : AgentHost) : AgentRegistration where
  hostname := h.hostname
  os_version := get_os_version h.os_release
  agent_version := CARGO_PKG_VERSION
  machine_id := h.machine_id

/-- `toml::from_str` of what `read_to_string` reads. -/
def config (g : Grammar) (h : AgentHost) : Option AgentConfig :=
  (fromUtf8? h.file).bind (AgentConfig.fromStr g)

end AgentHost

/-! ## Starting -/

/-- What a start meets. -/
structure StartDraw where
  /-- The flag `--enroll`. -/
  enroll : Bool
  now : ℕ
  attempts : List FleetClient.Attempt
  draw : EnrollmentDraw
  faults : Faults
  /-- The answer of the server reaches the agent. -/
  answered : Bool

/-- How far the write of the configuration gets. -/
inductive Written where
  | whole
  /-- The file cannot be opened. -/
  | failed
  /-- It is emptied, and only so many bytes are written. -/
  | cut (n : ℕ)

/-- An id that a host got when it enrolled as a machine. -/
structure Obtained where
  host : ℕ
  machine_id : String
  node_id : Uuid

/-- What is known of the hosts: the tables of the server, the hosts, and the
ids they got. -/
structure Hosts where
  tables : Tables
  hosts : ℕ → AgentHost
  obtained : List Obtained

/-- What can happen. -/
inductive AgentHostAction where
  /-- Anybody else calls the registry. -/
  | call (op : RegistryOp)
  /-- The agent of a host starts, and enrolls. -/
  | start (i : ℕ) (d : StartDraw)
  /-- It saves the id it got. -/
  | save (i : ℕ) (written : Written)
  /-- It ends, at any point. -/
  | stop (i : ℕ)
  /-- The configuration of a host is written by somebody else. -/
  | configure (i : ℕ) (file : Bytes)
  /-- A host says something else of itself. -/
  | identify (i : ℕ) (hostname : String) (etc dbus : Option String) (os_release : OsRelease)

namespace Hosts

variable (g : Grammar) (jwt : Jwt) (enrollment_secret : Option String)

/-- A host has changed. -/
def set (s : Hosts) (i : ℕ) (h : AgentHost) : Hosts :=
  { s with hosts := Function.update s.hosts i h }

/-- The registration an agent asks for, and the tables after it. -/
def registered (s : Hosts) (d : StartDraw) (now : ℕ) (secret : Option String)
    (request : AgentRegistration) : Except Status RegistrationResult × Tables :=
  Fleet.register_agent .standard jwt enrollment_secret
    ⟨none, secret.bind MetadataValue.try_from⟩ request d.draw d.faults (.ok (now / 1000)) s.tables

/-- The start up to the enrollment: an agent that does not get there ends. -/
def start (s : Hosts) (i : ℕ) (d : StartDraw) : Option Hosts :=
  let h := s.hosts i
  match h.agent, h.config g with
  | .stopped, none => some s
  | .stopped, some config =>
    match FleetClient.connect_with_retry jwt config.fleet.max_reconnect_attempts.toNat
        (config.fleet.reconnect_interval_secs.toNat * 1000) none 0 d.now FleetClient.new
          d.attempts with
    | some (.ok (), now, c) =>
      let secret :=
        if config.fleet.enrollment_secret = "" then none else some config.fleet.enrollment_secret
      let (answer, tables) := s.registered jwt enrollment_secret d now secret h.request
      -- where the answer is lost, the tables have changed all the same
      let s := { s with tables := tables }
      match d.answered, c.enroll_with_secret .standard (fun _ _ => answer) h.request secret with
      | true, (.ok response, _) =>
        match UuidText.standard.parse response.node_id with
        | .ok node_id =>
          some { s.set i { h with agent := .enrolled config d.enroll node_id } with
            obtained := s.obtained ++ [⟨i, h.machine_id, node_id⟩] }
        | .error _ => some s
      | _, _ => some s
    | _ => some s
  | _, _ => none

/-- The id is saved if the configuration says another, or none. -/
def save (s : Hosts) (i : ℕ) (written : Written) : Option Hosts :=
  let h := s.hosts i
  match h.agent with
  | .enrolled config enroll node_id =>
    if config.agent.node_id ≠ some node_id ∨ enroll then
      match fromUtf8? h.file with
      | none => some (s.set i { h with agent := .stopped })
      | some content =>
        let out := utf8 (save_node_id_to_config content node_id)
        match written with
        | .whole => some (s.set i { h with file := out, agent := .started node_id })
        | .failed => some (s.set i { h with agent := .stopped })
        | .cut n => some (s.set i { h with file := out.take n, agent := .stopped })
    else some (s.set i { h with agent := .started node_id })
  | _ => none

/-- **The hosts as a machine.** -/
def machine : Machine Hosts AgentHostAction where
  step s
    | .call op => some { s with tables := (op.apply .standard s.tables).2 }
    | .start i d => s.start g jwt enrollment_secret i d
    | .save i written => s.save i written
    | .stop i => some (s.set i { s.hosts i with agent := .stopped })
    | .configure i file => some (s.set i { s.hosts i with file := file })
    | .identify i hostname etc dbus os_release =>
      some (s.set i { s.hosts i with
        hostname := hostname
        etc_machine_id := etc
        dbus_machine_id := dbus
        os_release := os_release })

end Hosts

/-! ## The node of a machine -/

/-- The machine has its node. -/
def Named (t : Tables) (machine_id : String) (node_id : Uuid) : Prop :=
  ∃ row ∈ t.nodes, row.machine_id = machine_id ∧ row.node_id = node_id

/-- Every machine that has a node keeps it. -/
def KeepsNames (t t' : Tables) : Prop := ∀ m u, Named t m u → Named t' m u

variable {t t' : Tables} {m m' : String} {u u' : Uuid} {text : UuidText} {jwt : Jwt}

theorem keepsNames_append {row : NodeRow} (h : t'.nodes = t.nodes ++ [row]) : KeepsNames t t' := by
  rintro m u ⟨r, hr, hm, hu⟩
  exact ⟨r, h ▸ List.mem_append_left _ hr, hm, hu⟩

theorem keepsNames_updated {node_id : Uuid} {set : NodeRow → NodeRow}
    (h : t'.nodes = Tables.updated node_id set t.nodes)
    (hset : ∀ row, (set row).node_id = row.node_id ∧ (set row).machine_id = row.machine_id) :
    KeepsNames t t' := by
  rintro m u ⟨r, hr, hm, hu⟩
  refine ⟨if r.node_id = node_id then set r else r, ?_, ?_, ?_⟩
  · rw [h]
    exact List.mem_map_of_mem hr
  · split
    · rw [(hset r).2, hm]
    · exact hm
  · split
    · rw [(hset r).1, hu]
    · exact hu

/-- An enrollment keeps the names. -/
theorem keepsNames_upsert_node (record : NodeRecord) (draw : EnrollmentDraw) (faults : Faults) :
    KeepsNames t (upsert_node text record draw faults t).2 := by
  rcases upsert_node_cases text record draw faults t with
    ⟨e, h⟩ | ⟨t', h, -, -, hnodes, -⟩ | ⟨row, -, t', -, h, hnodes, -⟩
  · rw [h]
    exact fun _ _ => id
  · rw [h]
    exact keepsNames_append hnodes
  · rw [h]
    exact keepsNames_updated hnodes fun _ => ⟨rfl, rfl⟩

/-- **An enrollment answers the node of its machine.** -/
theorem named_of_upsert_node {record : NodeRecord} {draw : EnrollmentDraw} {faults : Faults}
    {node_id : String} (h : (upsert_node text record draw faults t).1 = .ok node_id) :
    ∃ u, node_id = text.print u ∧
      Named (upsert_node text record draw faults t).2 record.machine_id u := by
  rcases upsert_node_cases text record draw faults t with
    ⟨e, hcase⟩ | ⟨t', hcase, -, -, hnodes, -⟩ | ⟨row, hrow, t', hm, hcase, hnodes, -⟩
  · rw [hcase] at h
    cases h
  · rw [hcase] at h ⊢
    cases h
    exact ⟨draw.node_id, rfl, NewNodeEntity record draw, hnodes ▸ List.mem_concat_self, rfl, rfl⟩
  · rw [hcase] at h ⊢
    cases h
    exact ⟨row.node_id, rfl, keepsNames_updated hnodes (fun _ => ⟨rfl, rfl⟩) _ _
      ⟨row, hrow, hm, rfl⟩⟩

/-- **So does a registration**, for the machine that is named in it. -/
theorem named_of_register_agent {enrollment_secret : Option String} {metadata : Metadata}
    {reg : AgentRegistration} {draw : EnrollmentDraw} {faults : Faults} {now : Except String ℕ}
    {response : RegistrationResult}
    (h : (Fleet.register_agent text jwt enrollment_secret metadata reg draw faults now t).1 =
      .ok response) :
    ∃ u, response.node_id = text.print u ∧
      Named (Fleet.register_agent text jwt enrollment_secret metadata reg draw faults now t).2
        reg.machine_id u := by
  have henroll : (NodeEnroller.register_agent text jwt reg draw faults now t).1 = .ok response →
      ∃ u, response.node_id = text.print u ∧
        Named (NodeEnroller.register_agent text jwt reg draw faults now t).2 reg.machine_id u := by
    unfold NodeEnroller.register_agent
    dsimp only
    intro h
    split at h
    · cases h
    · next node_id hstored =>
      obtain ⟨u, hid, hnamed⟩ := named_of_upsert_node hstored
      cases hsign : sign_token jwt node_id now with
      | error e =>
        rw [hsign] at h
        cases h
      | ok token =>
        rw [hsign] at h
        cases h
        exact ⟨u, hid, hnamed⟩
  unfold Fleet.register_agent at h ⊢
  split at h
  · split at h
    · cases h
    · next hsecret =>
      rw [if_neg hsecret]
      exact henroll h
  · exact henroll h

theorem keepsNames_register_agent {enrollment_secret : Option String} {metadata : Metadata}
    {reg : AgentRegistration} {draw : EnrollmentDraw} {faults : Faults} {now : Except String ℕ} :
    KeepsNames t
      (Fleet.register_agent text jwt enrollment_secret metadata reg draw faults now t).2 := by
  rcases register_agent_tables with h | ⟨record, h⟩
  · rw [h]
    exact fun _ _ => id
  · rw [h]
    exact keepsNames_upsert_node record draw faults

/-! ## What a step can do -/

theorem parse_print_standard (u : Uuid) :
    UuidText.standard.parse (UuidText.standard.print u) = .ok u := by
  unfold UuidText.standard
  dsimp only
  rw [Uuid.parseStr_toText]

namespace Hosts

variable {g : Grammar} {enrollment_secret : Option String} {s s' : Hosts} {i j : ℕ}

@[simp] theorem set_hosts_self (s : Hosts) (i : ℕ) (h : AgentHost) : (s.set i h).hosts i = h :=
  Function.update_self ..

@[simp] theorem set_hosts_of_ne (h : i ≠ j) (s : Hosts) (host : AgentHost) :
    (s.set j host).hosts i = s.hosts i :=
  Function.update_of_ne h ..

/-- An agent that starts is enrolled as the machine its host says it is, or
ends with all hosts as they were. -/
theorem start_eq_some {d : StartDraw} (h : s.start g jwt enrollment_secret i d = some s') :
    (s.hosts i).agent = .stopped ∧ KeepsNames s.tables s'.tables ∧
      (s'.hosts = s.hosts ∧ s'.obtained = s.obtained ∨
        ∃ config node_id, (s.hosts i).config g = some config ∧
          Named s'.tables (s.hosts i).machine_id node_id ∧
          s'.hosts = Function.update s.hosts i
            { s.hosts i with agent := .enrolled config d.enroll node_id } ∧
          s'.obtained = s.obtained ++ [⟨i, (s.hosts i).machine_id, node_id⟩]) := by
  unfold start registered at h
  dsimp only at h
  split at h
  · next hagent hconfig =>
    obtain rfl := Option.some.inj h
    exact ⟨hagent, fun _ _ => id, .inl ⟨rfl, rfl⟩⟩
  · next config hagent hconfig =>
    refine ⟨hagent, ?_⟩
    split at h
    · next now c hconnect =>
      split at h
      · next response c' hanswered henroll =>
        obtain ⟨hanswer, -⟩ := FleetClient.enroll_with_secret_eq_ok henroll
        obtain ⟨u, hid, hnamed⟩ := named_of_register_agent hanswer
        simp only [hid, parse_print_standard] at h
        obtain rfl := Option.some.inj h
        exact ⟨keepsNames_register_agent, .inr ⟨config, u, hconfig, hnamed, rfl, rfl⟩⟩
      · obtain rfl := Option.some.inj h
        exact ⟨keepsNames_register_agent, .inl ⟨rfl, rfl⟩⟩
    · obtain rfl := Option.some.inj h
      exact ⟨fun _ _ => id, .inl ⟨rfl, rfl⟩⟩
  · cases h

/-- What a save makes of its host. -/
inductive Saves (h : AgentHost) (config : AgentConfig) (node_id : Uuid) :
    Written → AgentHost → Prop where
  /-- The configuration says the id already. -/
  | said (written : Written) (hsaid : config.agent.node_id = some node_id) :
    Saves h config node_id written { h with agent := .started node_id }
  | wrote (content : String) (hread : fromUtf8? h.file = some content) :
    Saves h config node_id .whole
      { h with file := utf8 (save_node_id_to_config content node_id), agent := .started node_id }
  | failed (written : Written) : Saves h config node_id written { h with agent := .stopped }
  | cut (n : ℕ) (content : String) : Saves h config node_id (.cut n)
      { h with
        file := (utf8 (save_node_id_to_config content node_id)).take n, agent := .stopped }

theorem save_eq_some {written : Written} (h : s.save i written = some s') :
    ∃ config enroll node_id host, (s.hosts i).agent = .enrolled config enroll node_id ∧
      Saves (s.hosts i) config node_id written host ∧ s' = s.set i host := by
  unfold save at h
  dsimp only at h
  split at h
  · next config enroll node_id hagent =>
    split at h
    · split at h
      · exact ⟨config, enroll, node_id, _, hagent, .failed written, (Option.some.inj h).symm⟩
      · next content hread =>
        cases written with
        | whole =>
          exact ⟨config, enroll, node_id, _, hagent, .wrote content hread,
            (Option.some.inj h).symm⟩
        | failed =>
          exact ⟨config, enroll, node_id, _, hagent, .failed .failed, (Option.some.inj h).symm⟩
        | cut n =>
          exact ⟨config, enroll, node_id, _, hagent, .cut n content, (Option.some.inj h).symm⟩
    · next hsame =>
      have hsaid : config.agent.node_id = some node_id := not_not.1 (not_or.1 hsame).1
      exact ⟨config, enroll, node_id, _, hagent, .said written hsaid, (Option.some.inj h).symm⟩
  · cases h

/-- The host got the id. -/
def Got (s : Hosts) (i : ℕ) (u : Uuid) : Prop := ∃ x ∈ s.obtained, x.host = i ∧ x.node_id = u

theorem Got.mono (h : s.Got i u) (hobtained : s.obtained ⊆ s'.obtained) : s'.Got i u := by
  obtain ⟨x, hx, hhost, hid⟩ := h
  exact ⟨x, hobtained hx, hhost, hid⟩

/-- The machines that enrolled have the nodes they got. -/
def Identified (s : Hosts) : Prop := ∀ x ∈ s.obtained, Named s.tables x.machine_id x.node_id

theorem Identified.mono (hs : Identified s) (hkeeps : KeepsNames s.tables s'.tables)
    (hobtained : s'.obtained = s.obtained) : Identified s' := by
  intro x hx
  exact hkeeps _ _ (hs x (hobtained ▸ hx))

/-- The text of the file, once an id is saved. -/
def savedText (content : String) : Option Uuid → String
  | none => content
  | some u => save_node_id_to_config content u

/-- What it says. -/
def savedConfig (config : AgentConfig) : Option Uuid → AgentConfig
  | none => config
  | some u => config.withNodeId (some u)

/-- **The file can be rewritten**: it says what it said, with the id that
was saved last. -/
structure Rewritable (g : Grammar) (content : String) (config : AgentConfig) : Prop where
  read : ∀ saved, AgentConfig.fromStr g (savedText content saved) = some (savedConfig config saved)
  again : ∀ saved u,
    save_node_id_to_config (savedText content saved) u = savedText content (some u)

variable {content : String} {config : AgentConfig}

/-- **The file of a host is the one it was**, with the id that was saved
last, and the agent goes by it. -/
structure Configured (content : String) (config : AgentConfig) (i : ℕ) (s : Hosts)
    (saved : Option Uuid) : Prop where
  file : (s.hosts i).file = utf8 (savedText content saved)
  own : ∀ u, saved = some u → s.Got i u
  enrolled : ∀ read enroll u, (s.hosts i).agent = .enrolled read enroll u →
    read = savedConfig config saved ∧ s.Got i u
  started : ∀ u, (s.hosts i).agent = .started u →
    (savedConfig config saved).agent.node_id = some u ∧ s.Got i u

variable {saved : Option Uuid}

/-- What happens elsewhere. -/
theorem Configured.of_eq (hs : Configured content config i s saved)
    (hhost : s'.hosts i = s.hosts i) (hobtained : s.obtained ⊆ s'.obtained) :
    Configured content config i s' saved where
  file := hhost ▸ hs.file
  own u hu := (hs.own u hu).mono hobtained
  enrolled read enroll u hagent := by
    obtain ⟨hread, hgot⟩ := hs.enrolled read enroll u (hhost ▸ hagent)
    exact ⟨hread, hgot.mono hobtained⟩
  started u hagent := by
    obtain ⟨hsaid, hgot⟩ := hs.started u (hhost ▸ hagent)
    exact ⟨hsaid, hgot.mono hobtained⟩

/-- An agent that ends. -/
theorem Configured.stopped (hs : Configured content config i s saved)
    (hfile : (s'.hosts i).file = (s.hosts i).file) (hagent : (s'.hosts i).agent = .stopped)
    (hobtained : s'.obtained = s.obtained) : Configured content config i s' saved where
  file := hfile.trans hs.file
  own u hu := (hs.own u hu).mono (hobtained ▸ List.Subset.refl _)
  enrolled read enroll u h := by
    rw [hagent] at h
    cases h
  started u h := by
    rw [hagent] at h
    cases h

theorem Configured.start {d : StartDraw} (hrewrite : Rewritable g content config)
    (hs : Configured content config i s saved)
    (ht : s.start g jwt enrollment_secret j d = some s') :
    Configured content config i s' saved := by
  obtain ⟨-, -, ⟨hhosts, hobtained⟩ | ⟨read, node_id, hread, -, hhosts, hobtained⟩⟩ :=
    start_eq_some ht
  · exact hs.of_eq (congrFun hhosts i) (hobtained ▸ List.Subset.refl _)
  · have hsub : s.obtained ⊆ s'.obtained := hobtained ▸ List.subset_append_left _ _
    by_cases hij : i = j
    · subst hij
      have hhost : s'.hosts i = { s.hosts i with agent := .enrolled read d.enroll node_id } := by
        rw [hhosts, Function.update_self]
      -- what it read is what the file says
      have hsaid : read = savedConfig config saved := by
        rw [AgentHost.config, hs.file, fromUtf8?_utf8, Option.bind_some,
          hrewrite.read saved] at hread
        exact (Option.some.inj hread).symm
      refine ⟨by rw [hhost]; exact hs.file, fun u hu => (hs.own u hu).mono hsub, ?_, ?_⟩
      · intro read' enroll u hagent
        rw [hhost] at hagent
        cases hagent
        exact ⟨hsaid, _, hobtained ▸ List.mem_concat_self, rfl, rfl⟩
      · intro u hagent
        rw [hhost] at hagent
        cases hagent
    · refine hs.of_eq ?_ hsub
      rw [hhosts, Function.update_of_ne hij]

theorem Configured.save {written : Written} (hrewrite : Rewritable g content config)
    (hs : Configured content config i s saved) (hcut : ∀ n, written = .cut n → j ≠ i)
    (ht : s.save j written = some s') : ∃ saved', Configured content config i s' saved' := by
  obtain ⟨read, enroll, node_id, host, hagent, hsaves, rfl⟩ := save_eq_some ht
  by_cases hij : i = j
  · subst hij
    obtain ⟨hread, hgot⟩ := hs.enrolled read enroll node_id hagent
    cases hsaves with
    | said _ hsaid =>
      refine ⟨saved, by rw [set_hosts_self]; exact hs.file, hs.own, ?_, ?_⟩
      · intro _ _ u h
        rw [set_hosts_self] at h
        cases h
      · intro u h
        rw [set_hosts_self] at h
        cases h
        exact ⟨hread ▸ hsaid, hgot⟩
    | wrote content' hcontent =>
      obtain rfl : savedText content saved = content' := by
        rw [hs.file, fromUtf8?_utf8] at hcontent
        exact Option.some.inj hcontent
      refine ⟨some node_id, by rw [set_hosts_self, hrewrite.again], ?_, ?_, ?_⟩
      · rintro u ⟨⟩
        exact hgot
      · intro _ _ u h
        rw [set_hosts_self] at h
        cases h
      · intro u h
        rw [set_hosts_self] at h
        cases h
        exact ⟨rfl, hgot⟩
    | failed _ =>
      exact ⟨saved, hs.stopped (by rw [set_hosts_self]) (by rw [set_hosts_self]) rfl⟩
    | cut n => exact absurd rfl (hcut n rfl)
  · exact ⟨saved, hs.of_eq (set_hosts_of_ne hij _ _) (List.Subset.refl _)⟩

/-- Somebody does something else to a host. -/
theorem Configured.set (hs : Configured content config i s saved) {h : AgentHost}
    (hfile : i = j → h.file = (s.hosts j).file)
    (hagent : i = j → h.agent = .stopped ∨ h.agent = (s.hosts j).agent) :
    Configured content config i (s.set j h) saved := by
  by_cases hij : i = j
  · subst hij
    rcases hagent rfl with hstopped | hsame
    · exact hs.stopped (by rw [set_hosts_self, hfile rfl]) (by rw [set_hosts_self, hstopped]) rfl
    · refine ⟨by rw [set_hosts_self, hfile rfl]; exact hs.file, hs.own, ?_, ?_⟩
      · intro read enroll u h
        rw [set_hosts_self, hsame] at h
        exact hs.enrolled read enroll u h
      · intro u h
        rw [set_hosts_self, hsame] at h
        exact hs.started u h
  · exact hs.of_eq (set_hosts_of_ne hij _ _) (List.Subset.refl _)

end Hosts

end AigisZero.Agent
