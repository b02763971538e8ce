import Mathlib.Data.List.Flatten
import Protean.Firewall.Instances
import Protean.Firewall.Verbs

namespace Protean.Firewall

/-- Registered and up, with the reads that go with it successful. -/
structure Row.Live (row : Row) : Prop where
  registered : row.2.registered
  statusRead : row.2.statusRead
  up : row.2.up
  stored : row.1.type = .xray → row.2.stored.isSome

/-- A place of the critical list: protocol and port. -/
def portEntry (q : Text × Int) : Text := q.1 ++ ':' :: Text.itoa q.2

/-- The instances of `rows` are the ones that are up. Every pair they listen
on is in the baseline and in the critical list, and the host takes the list. -/
structure Complete (core : XrayCore) (files : List Xray.FileModule) (tmpl : Template) (server : Server)
    (rows : List Row) : Prop where
  baseline : ∀ row ∈ rows, ∀ q ∈ listens core files tmpl row,
    ∃ bp ∈ serverBaseline tmpl server rows, (bp.proto, bp.port) = q
  critical : ∀ row ∈ rows, ∀ q ∈ listens core files tmpl row,
    portEntry q ∈ (criticalPortsCSV (serverBaseline tmpl server rows) server.sshPort).splitOn ','
  accepted : criticalCsvAccepted (criticalPortsCSV (serverBaseline tmpl server rows) server.sshPort)

/-- The ports the panel's records give for an instance. -/
def onRecord (tmpl : Template) (row : Row) : List (Text × Int) :=
  match row.1.type with
  | .wireguard => if 0 < row.2.dumpPort then [(Word.udp, row.2.dumpPort)] else []
  | .amneziawg => if 0 < row.2.dumpPort then [(Word.udp, row.2.dumpPort)] else []
  | .openvpn =>
    if 0 < openvpnPort tmpl row.1 then
      [(if row.1.setting "proto" = Word.tcp then Word.tcp else Word.udp, openvpnPort tmpl row.1)]
    else []
  | .ikev2 => [(Word.udp, 500), (Word.udp, 4500)]
  | .xray =>
    match row.2.stored.bind fun current => Text.atoi ((current.2.lookup "port").getD []) with
    | some port => if 0 < port then [(Word.tcp, port)] else []
    | none => []

/-- The web ports of the panel, on its own host. -/
def panelPairs (server : Server) : List (Text × Int) :=
  if server.panelHost then (server.panelPorts.filter (0 < ·)).map (Word.tcp, ·) else []

/-- The places the instances and the panel take in the critical list. -/
def places (tmpl : Template) (server : Server) (rows : List Row) : List (Text × Int) :=
  (rows.flatMap (onRecord tmpl) ++ panelPairs server).filter (· ≠ (Word.tcp, server.sshPort))

/-- A place has one of the two protocols and a positive port. -/
def Place (q : Text × Int) : Prop := (q.1 = Word.tcp ∨ q.1 = Word.udp) ∧ 0 < q.2

variable {q : Text × Int}

section
variable {tmpl : Template} {server : Server} {rows : List Row} {row : Row}

theorem status_live (live : row.Live) : status tmpl row = some ⟨true, reportedPort tmpl row⟩ := by
  simp [status, live.statusRead, live.up]

theorem instancePort_pairs (live : row.Live) :
    (instancePort tmpl row).map (fun ip => (ip.proto, ip.port)) = onRecord tmpl row := by
  cases kind : row.1.type with
  | wireguard | amneziawg | openvpn =>
    simp only [instancePort, onRecord, status_live live, reportedPort, kind, Bool.not_true, Bool.false_eq_true, if_false]
    split <;> rfl
  | ikev2 => simp [instancePort, onRecord, status_live live, kind]
  | xray =>
    obtain ⟨current, stored⟩ := Option.isSome_iff_exists.mp (live.stored kind)
    simp only [instancePort, onRecord, status_live live, kind, stored, Option.bind_some, Bool.not_true,
      Bool.false_eq_true, if_false]
    cases Text.atoi ((current.2.lookup "port").getD []) with
    | none => rfl
    | some port => simp only; split <;> rfl

theorem onRecord_place : ∀ q ∈ onRecord tmpl row, Place q := by
  intro q member
  unfold onRecord at member
  cases kind : row.1.type with
  | wireguard | amneziawg =>
    simp only [kind] at member
    split at member
    · rename_i positive
      rw [List.mem_singleton.mp member]
      exact ⟨.inr rfl, positive⟩
    · cases member
  | openvpn =>
    simp only [kind] at member
    split at member
    · rename_i positive
      rw [List.mem_singleton.mp member]
      refine ⟨?_, positive⟩
      split
      · exact .inl rfl
      · exact .inr rfl
    · cases member
  | ikev2 =>
    simp only [kind, List.mem_cons, List.not_mem_nil, or_false] at member
    rcases member with rfl | rfl
    · exact ⟨.inr rfl, by decide⟩
    · exact ⟨.inr rfl, by decide⟩
  | xray =>
    simp only [kind] at member
    split at member
    · split at member
      · rename_i positive
        rw [List.mem_singleton.mp member]
        exact ⟨.inl rfl, positive⟩
      · cases member
    · cases member

theorem panelPairs_place : ∀ q ∈ panelPairs server, Place q := by
  intro q member
  unfold panelPairs at member
  split at member
  · obtain ⟨p, inside, rfl⟩ := List.mem_map.mp member
    have positive : 0 < p := of_decide_eq_true (List.mem_filter.mp inside).2
    exact ⟨.inl rfl, positive⟩
  · cases member

theorem panelPairs_tcp (member : q ∈ panelPairs server) : q.1 = Word.tcp := by
  unfold panelPairs at member
  split at member
  · obtain ⟨p, -, rfl⟩ := List.mem_map.mp member
    rfl
  · cases member

theorem places_place : ∀ q ∈ places tmpl server rows, Place q := by
  intro q member
  rcases List.mem_append.mp (List.mem_of_mem_filter member) with recorded | panel
  · obtain ⟨row, -, inside⟩ := List.mem_flatMap.mp recorded
    exact onRecord_place q inside
  · exact panelPairs_place q panel

/-- The baseline is the SSH port, the recorded ports and the panel's. -/
theorem serverBaseline_pairs (live : ∀ row ∈ rows, row.Live) :
    (serverBaseline tmpl server rows).map (fun bp => (bp.proto, bp.port)) =
      (Word.tcp, server.sshPort) :: (rows.flatMap (onRecord tmpl) ++ panelPairs server) := by
  have recorded : (instancePorts tmpl rows).map (fun ip => (ip.proto, ip.port)) = rows.flatMap (onRecord tmpl) := by
    induction rows with
    | nil => rfl
    | cons row rows ih =>
      rw [List.forall_mem_cons] at live
      rw [instancePorts, List.flatMap_cons, List.map_append, if_pos live.1.registered,
        instancePort_pairs live.1, List.flatMap_cons, ← ih live.2]
      rfl
  have positive : ∀ ip ∈ instancePorts tmpl rows, 0 < ip.port := by
    intro ip member
    have pair : (ip.proto, ip.port) ∈ rows.flatMap (onRecord tmpl) := by
      rw [← recorded]
      exact List.mem_map_of_mem member
    obtain ⟨row, -, inside⟩ := List.mem_flatMap.mp pair
    exact (onRecord_place _ inside).2
  have kept : (instancePorts tmpl rows).filter (0 < ·.port) = instancePorts tmpl rows :=
    List.filter_eq_self.mpr fun ip member => decide_eq_true (positive ip member)
  rw [serverBaseline, computeBaseline, kept, ← recorded, panelPairs]
  split
  · simp
    rfl
  · simp

/-- What the critical list is made of. -/
theorem criticalPorts_pairs (live : ∀ row ∈ rows, row.Live) :
    (criticalPorts (serverBaseline tmpl server rows) server.sshPort).map (fun bp => (bp.proto, bp.port)) =
      places tmpl server rows := by
  have other : (fun bp : BaselinePort => !isSshPort server.sshPort bp) =
      (fun q => decide (q ≠ (Word.tcp, server.sshPort))) ∘ fun bp => (bp.proto, bp.port) := by
    funext bp
    simp [isSshPort, Prod.ext_iff]
  rw [criticalPorts, other, ← List.filter_map, serverBaseline_pairs live, List.filter_cons]
  simp [places]

end

theorem Place.proto_length (place : Place q) : q.1.length = 3 := by
  rcases place.1 with same | same <;> rw [same] <;> rfl

/-- A positive port is written as a natural number is. -/
theorem Place.itoa (place : Place q) : Text.itoa q.2 = Text.decimal q.2.toNat := by
  conv_lhs => rw [← Int.toNat_of_nonneg place.2.le]
  exact Text.itoa_natCast _

theorem portEntry_injective {r : Text × Int} (placeQ : Place q) (placeR : Place r) (same : portEntry q = portEntry r) :
    q = r := by
  obtain ⟨proto, rest⟩ := List.append_inj same (placeQ.proto_length.trans placeR.proto_length.symm)
  have digits := (List.cons.inj rest).2
  rw [placeQ.itoa, placeR.itoa] at digits
  have port := Text.decimal_injective digits
  refine Prod.ext proto ?_
  have positiveQ := placeQ.2
  have positiveR := placeR.2
  omega

theorem portEntry_noComma (place : Place q) : ',' ∉ portEntry q := by
  rw [portEntry, place.itoa]
  intro member
  rcases List.mem_append.mp member with proto | rest
  · rcases place.1 with same | same <;> rw [same] at proto <;> revert proto <;> decide
  · rcases List.mem_cons.mp rest with colon | digit
    · revert colon; decide
    · have isDigit := Text.isDigit_of_mem_decimal digit
      revert isDigit
      decide

/-- One place passes the host's pattern when its port has at most five digits. -/
theorem portEntry_valid (place : Place q) : portEntry q ∈ validFwEntry.matches' ↔ q.2 ≤ 99999 := by
  have digits : Text.itoa q.2 ∈ validPort.matches' ↔ q.2 ≤ 99999 := by
    rw [validPort, Regex.mem_digits (by decide), place.itoa, Text.decimal_length_le_iff (by decide)]
    have positive := place.2
    have some' : 1 ≤ (Text.decimal q.2.toNat).length :=
      List.length_pos_of_ne_nil (Text.decimal_ne_nil _)
    constructor
    · rintro ⟨-, short, -⟩
      omega
    · intro short
      exact ⟨some', by omega, fun c member => Text.isDigit_of_mem_decimal member⟩
  rw [← digits, validFwEntry, Regex.mem_mul]
  constructor
  · rintro ⟨proto, named, rest, tail, same⟩
    obtain ⟨colon, separator, port, read, rfl⟩ := Regex.mem_mul.mp tail
    rw [Regex.mem_char.mp separator] at same
    have length : proto.length = q.1.length := by
      rw [RegularExpression.matches'_add, Language.mem_add, Regex.mem_word, Regex.mem_word] at named
      rw [place.proto_length]
      rcases named with rfl | rfl <;> rfl
    have tails := (List.append_inj same length).2
    rw [← (List.cons.inj tails).2]
    exact read
  · intro read
    refine ⟨q.1, ?_, ':' :: Text.itoa q.2, Regex.mem_mul.mpr ⟨[':'], rfl, _, read, rfl⟩, rfl⟩
    rw [RegularExpression.matches'_add, Language.mem_add, Regex.mem_word, Regex.mem_word]
    exact place.1

theorem validFwEntry_noComma {t : Text} (valid : t ∈ validFwEntry.matches') : ',' ∉ t := by
  obtain ⟨proto, named, rest, tail, rfl⟩ := Regex.mem_mul.mp valid
  obtain ⟨colon, separator, port, read, rfl⟩ := Regex.mem_mul.mp tail
  rw [RegularExpression.matches'_add, Language.mem_add, Regex.mem_word, Regex.mem_word] at named
  rw [validPort, Regex.mem_digits (by decide)] at read
  rw [Regex.mem_char.mp separator]
  intro member
  rcases List.mem_append.mp member with member | member
  · rcases named with rfl | rfl <;> revert member <;> decide
  · rcases List.mem_cons.mp member with same | member
    · revert same; decide
    · have isDigit := read.2.2 _ member
      revert isDigit
      decide

section
variable {qs : List (Text × Int)} (each : ∀ q ∈ qs, Place q)
include each

theorem splitOn_portEntries (some' : qs ≠ []) :
    ([','].intercalate (qs.map portEntry)).splitOn ',' = qs.map portEntry := by
  refine List.splitOn_intercalate ',' ?_ (by simpa using some')
  intro t member
  obtain ⟨q, inside, rfl⟩ := List.mem_map.mp member
  exact portEntry_noComma (each q inside)

/-- A pair is in the list when it has a place there. -/
theorem portEntry_mem_csv (place : Place q) : portEntry q ∈ ([','].intercalate (qs.map portEntry)).splitOn ',' ↔ q ∈ qs := by
  by_cases none' : qs = []
  · subst none'
    have filled : portEntry q ≠ [] := by simp [portEntry]
    simp [List.intercalate, filled]
  · rw [splitOn_portEntries each none', List.mem_map]
    constructor
    · rintro ⟨r, member, same⟩
      rw [← portEntry_injective (each r member) place same]
      exact member
    · exact fun member => ⟨q, member, rfl⟩

/-- The host takes a list of at most 32 places with ports of at most five digits. -/
theorem criticalCsvAccepted_iff :
    criticalCsvAccepted ([','].intercalate (qs.map portEntry)) ↔ qs.length ≤ 32 ∧ ∀ q ∈ qs, q.2 ≤ 99999 := by
  by_cases none' : qs = []
  · subst none'
    simp [criticalCsvAccepted, List.intercalate]
  have filled : [','].intercalate (qs.map portEntry) ≠ [] := by
    intro empty
    have split := splitOn_portEntries each none'
    rw [empty] at split
    obtain ⟨q, member⟩ := List.exists_mem_of_ne_nil qs none'
    have first : portEntry q ∈ ([] : Text).splitOn ',' := by
      rw [split]
      exact List.mem_map_of_mem member
    simp [portEntry] at first
  have pattern : criticalCsvAccepted ([','].intercalate (qs.map portEntry)) ↔
      [','].intercalate (qs.map portEntry) ∈ validFwPortlist.matches' := by
    rw [criticalCsvAccepted, ← Regex.accepts_iff]
    simp [filled]
  rw [pattern, validFwPortlist, Regex.mem_separated]
  constructor
  · rintro ⟨parts, some', length, entries, same⟩
    have apart : parts = qs.map portEntry := by
      have split := congrArg (List.splitOn ',') same
      rwa [splitOn_portEntries each none',
        List.splitOn_intercalate ',' (fun t member => validFwEntry_noComma (entries t member)) some'] at split
    subst apart
    refine ⟨by simpa using length, fun q member => ?_⟩
    exact (portEntry_valid (each q member)).mp (entries _ (List.mem_map_of_mem member))
  · rintro ⟨length, short⟩
    refine ⟨qs.map portEntry, by simpa using none', by simpa using length, ?_, rfl⟩
    intro t member
    obtain ⟨q, inside, rfl⟩ := List.mem_map.mp member
    exact (portEntry_valid (each q inside)).mpr (short q inside)

end

/-- What the records of an instance have to say for its ports to be protected
under whatever else is up. The WireGuard family and IKEv2 always do. -/
def Watched (core : XrayCore) (files : List Xray.FileModule) (tmpl : Template) (server : Server)
    (row : Row) : Prop :=
  match row.1.type with
  | .wireguard => True
  | .amneziawg => True
  | .ikev2 => True
  | .openvpn =>
    -- the protocol in force is TCP exactly when the stored setting is the word `tcp`
    ∀ transport, openvpnTransport (openvpnProto tmpl row.1) = some transport →
      bindable (openvpnPort tmpl row.1) →
      (transport = Word.tcp ↔ row.1.setting "proto" = Word.tcp) ∨
        (transport, openvpnPort tmpl row.1) ∈ panelPairs server
  | .xray =>
    ∀ strategy params, row.2.stored = some (strategy, params) →
      match Xray.strategyGet files strategy with
      | some (.builtin s) =>
        (s.buildInbound params row.2.clients).isOk → bindable (Xray.portOf params s.defaultPort) →
          s ≠ .shadowsocks2022 ∧ (params.get "port" [] ≠ [] ∨
            (Word.tcp, Xray.portOf params s.defaultPort) ∈ panelPairs server)
      | some (.file m) =>
        ∀ inbound, m.buildInbound params row.2.clients = .ok inbound → ∀ q ∈ core.listens inbound,
          q.1 = Word.tcp ∧ Text.atoi ((params.lookup "port").getD []) = some q.2 ∨ q ∈ panelPairs server
      | none => True

section
variable {core : XrayCore} {files : List Xray.FileModule} {tmpl : Template} {server : Server} {row : Row}

variable {params : Xray.Params} {strategy : Text}

/-- The port on record of an Xray instance. -/
theorem mem_onRecord_xray (kind : row.1.type = .xray) (stored : row.2.stored = some (strategy, params)) :
    q ∈ onRecord tmpl row ↔
      q.1 = Word.tcp ∧ Text.atoi ((params.lookup "port").getD []) = some q.2 ∧ 0 < q.2 := by
  simp only [onRecord, kind, stored, Option.bind_some]
  cases Text.atoi ((params.lookup "port").getD []) with
  | none => simp
  | some port =>
    simp only
    split
    · rename_i positive
      rw [List.mem_singleton]
      constructor
      · rintro rfl
        exact ⟨rfl, rfl, positive⟩
      · rintro ⟨proto, same, -⟩
        exact Prod.ext proto (Option.some.inj same).symm
    · rename_i none'
      simp only [List.not_mem_nil, Option.some.injEq, false_iff, not_and]
      rintro - rfl
      exact none'

theorem params_port_get {default : Text} : params.get "port" default =
      if (params.lookup "port").getD [] = [] then default else (params.lookup "port").getD [] := by
  unfold Xray.Params.get
  cases params.lookup "port" with
  | none => rfl
  | some v =>
    by_cases empty : v = [] <;> simp [empty]

theorem watched_builtin (documented : core.Documented) (kind : row.1.type = .xray)
    (stored : row.2.stored = some (strategy, params)) {s : Xray.Builtin}
    (named : Xray.strategyGet files strategy = some (.builtin s)) :
    ((s.buildInbound params row.2.clients).isOk → bindable (Xray.portOf params s.defaultPort) →
      s ≠ .shadowsocks2022 ∧ (params.get "port" [] ≠ [] ∨
        (Word.tcp, Xray.portOf params s.defaultPort) ∈ panelPairs server)) ↔
      ∀ q ∈ listens core files tmpl row, q ∈ onRecord tmpl row ∨ q ∈ panelPairs server := by
  have heard : listens core files tmpl row =
      (s.buildInbound params row.2.clients).toOption.elim [] core.listens := by
    simp only [listens, kind, storedInbound, stored, Option.bind_some, named, Xray.Strategy.buildInbound]
  cases built : s.buildInbound params row.2.clients with
  | error e =>
    rw [heard, built]
    simp [Except.isOk, Except.toBool, Except.toOption]
  | ok inbound =>
    rw [built] at heard
    simp only [Except.toOption, Option.elim_some, buildInbound_eq built, inboundOf_listens documented] at heard
    rw [heard]
    by_cases binds : bindable (Xray.portOf params s.defaultPort)
    · rw [if_pos binds]
      constructor
      · intro watched q member
        obtain ⟨notShadowsocks, port⟩ := watched rfl binds
        rw [if_neg notShadowsocks, List.mem_singleton] at member
        subst member
        refine port.imp (fun given => ?_) id
        -- a port that is stored is the one in the inbound
        rw [params_port_get] at given
        have raw : (params.lookup "port").getD [] ≠ [] := by
          intro empty
          simp [empty] at given
        have value : Xray.portOf params s.defaultPort = Text.atoiValue ((params.lookup "port").getD []) := by
          rw [Xray.portOf, params_port_get, if_neg raw]
        have lower := binds.1
        have upper := binds.2
        rw [mem_onRecord_xray kind stored]
        refine ⟨rfl, ?_, by omega⟩
        rw [value] at lower upper ⊢
        exact Text.atoi_of_atoiValue (by omega) (by omega)
      · intro covered _ _
        refine ⟨?_, ?_⟩
        · rintro rfl
          have udp : Word.udp ≠ Word.tcp := by decide
          rcases covered (Word.udp, Xray.portOf params Xray.Builtin.shadowsocks2022.defaultPort) (by simp) with
            recorded | panel
          · exact udp ((mem_onRecord_xray kind stored).mp recorded).1
          · exact udp (panelPairs_tcp panel)
        · refine (covered (Word.tcp, _) (by simp)).imp (fun recorded => ?_) id
          obtain ⟨-, read, -⟩ := (mem_onRecord_xray kind stored).mp recorded
          rw [params_port_get]
          intro empty
          have none' : (params.lookup "port").getD [] = [] := by
            by_contra filled
            rw [if_neg filled] at empty
            exact filled empty
          rw [none'] at read
          cases read
    · rw [if_neg binds]
      simp [binds]

theorem watched_file (documented : core.Documented) (kind : row.1.type = .xray)
    (stored : row.2.stored = some (strategy, params)) {m : Xray.FileModule}
    (named : Xray.strategyGet files strategy = some (.file m)) : Watched core files tmpl server row ↔
      ∀ q ∈ listens core files tmpl row, q ∈ onRecord tmpl row ∨ q ∈ panelPairs server := by
  have positive : ∀ inbound, ∀ q ∈ core.listens inbound, 0 < q.2 := by
    intro inbound q member
    have lower := (documented.ranged inbound q member).2.1
    omega
  have watched : Watched core files tmpl server row ↔ ∀ inbound,
      m.buildInbound params row.2.clients = .ok inbound → ∀ q ∈ core.listens inbound,
        q.1 = Word.tcp ∧ Text.atoi ((params.lookup "port").getD []) = some q.2 ∨ q ∈ panelPairs server := by
    simp [Watched, kind, stored, named]
  have heard : listens core files tmpl row =
      (m.buildInbound params row.2.clients).toOption.elim [] core.listens := by
    simp only [listens, kind, storedInbound, stored, Option.bind_some, named, Xray.Strategy.buildInbound]
  rw [watched, heard]
  simp only [mem_onRecord_xray kind stored]
  cases built : m.buildInbound params row.2.clients with
  | error e => simp [Except.toOption]
  | ok inbound =>
    simp only [Except.ok.injEq, forall_eq', Except.toOption, Option.elim_some]
    constructor
    · intro covered q member
      exact (covered q member).imp (fun recorded => ⟨recorded.1, recorded.2, positive _ q member⟩) id
    · intro covered q member
      exact (covered q member).imp (fun recorded => ⟨recorded.1, recorded.2.1⟩) id

theorem openvpnTransport_cases {proto transport : Text} (taken : openvpnTransport proto = some transport) :
    transport = Word.udp ∨ transport = Word.tcp := by
  unfold openvpnTransport at taken
  split at taken
  · exact .inl (Option.some.inj taken).symm
  · split at taken
    · exact .inr (Option.some.inj taken).symm
    · cases taken

theorem mem_onRecord_openvpn (kind : row.1.type = .openvpn) {transport : Text}
    (proto : transport = Word.udp ∨ transport = Word.tcp) (binds : bindable (openvpnPort tmpl row.1)) :
    (transport, openvpnPort tmpl row.1) ∈ onRecord tmpl row ↔
      (transport = Word.tcp ↔ row.1.setting "proto" = Word.tcp) := by
  have positive : 0 < openvpnPort tmpl row.1 := by
    have lower := binds.1
    omega
  have udp : Word.udp ≠ Word.tcp := by decide
  simp only [onRecord, kind, if_pos positive, List.mem_singleton, Prod.mk.injEq, and_true]
  by_cases tcp : row.1.setting "proto" = Word.tcp
  · simp [tcp]
  · rw [if_neg tcp]
    rcases proto with rfl | rfl
    · simp [udp, tcp]
    · simp [tcp, udp.symm]

/-- The other kinds listen where their records say. -/
theorem listens_eq_onRecord (notOpenvpn : row.1.type ≠ .openvpn) (notXray : row.1.type ≠ .xray) :
    listens core files tmpl row = onRecord tmpl row := by
  unfold listens onRecord
  cases kind : row.1.type with
  | wireguard => rfl
  | amneziawg => rfl
  | ikev2 => rfl
  | openvpn => exact absurd kind notOpenvpn
  | xray => exact absurd kind notXray

/-- An instance is watched when every pair it listens on is on its record or
is a port of the panel. -/
theorem watched_iff (documented : core.Documented) :
    Watched core files tmpl server row ↔
      ∀ q ∈ listens core files tmpl row, q ∈ onRecord tmpl row ∨ q ∈ panelPairs server := by
  cases kind : row.1.type with
  | wireguard | amneziawg | ikev2 =>
    rw [listens_eq_onRecord (by simp [kind]) (by simp [kind])]
    simp only [Watched, kind, true_iff]
    exact fun q member => .inl member
  | openvpn =>
    simp only [Watched, listens, kind]
    cases taken : openvpnTransport (openvpnProto tmpl row.1) with
    | none => simp
    | some transport =>
      have proto := openvpnTransport_cases taken
      by_cases binds : bindable (openvpnPort tmpl row.1)
      · simp [binds, mem_onRecord_openvpn kind proto binds]
      · simp [binds]
  | xray =>
    cases stored : row.2.stored with
    | none => simp [Watched, listens, kind, storedInbound, stored]
    | some current =>
      obtain ⟨strategy, params⟩ := current
      cases named : Xray.strategyGet files strategy with
      | none => simp [Watched, listens, kind, storedInbound, stored, named]
      | some s =>
        cases s with
        | builtin s =>
          rw [← watched_builtin documented kind stored named]
          simp [Watched, kind, stored, named]
        | file m => exact watched_file documented kind stored named

variable {rows : List Row}

theorem mem_places : q ∈ places tmpl server rows ↔
      ((∃ row ∈ rows, q ∈ onRecord tmpl row) ∨ q ∈ panelPairs server) ∧ q ≠ (Word.tcp, server.sshPort) := by
  simp only [places, List.mem_filter, List.mem_append, List.mem_flatMap, decide_eq_true_eq]

theorem listens_place (documented : core.Documented) : ∀ q ∈ listens core files tmpl row, Place q := by
  intro q member
  have positive : ∀ port, bindable port → 0 < port := by
    intro port binds
    have lower := binds.1
    omega
  cases kind : row.1.type with
  | wireguard | ikev2 => rw [listens_eq_onRecord (by simp [kind]) (by simp [kind])] at member; exact onRecord_place q member
  | amneziawg => rw [listens_eq_onRecord (by simp [kind]) (by simp [kind])] at member; exact onRecord_place q member
  | openvpn =>
    simp only [listens, kind] at member
    split at member
    · rename_i transport taken
      split at member
      · rename_i binds
        rw [List.mem_singleton.mp member]
        exact ⟨(openvpnTransport_cases taken).symm, positive _ binds⟩
      · cases member
    · cases member
  | xray =>
    simp only [listens, kind] at member
    cases built : storedInbound files row.2 with
    | none => simp [built] at member
    | some inbound =>
      rw [built, Option.elim_some] at member
      obtain ⟨proto, binds⟩ := documented.ranged inbound q member
      exact ⟨proto, positive _ binds⟩

theorem criticalPortsCSV_places (live : ∀ row ∈ rows, row.Live) :
    criticalPortsCSV (serverBaseline tmpl server rows) server.sshPort =
      [','].intercalate ((places tmpl server rows).map portEntry) := by
  rw [criticalPortsCSV_eq, ← criticalPorts_pairs live, List.map_map]
  rfl

/-- One set of instances that are up is completely protected when each pair
they listen on has a place and the list fits. -/
theorem complete_iff (documented : core.Documented) (live : ∀ row ∈ rows, row.Live) : Complete core files tmpl server rows ↔
      (∀ row ∈ rows, ∀ q ∈ listens core files tmpl row, q ∈ places tmpl server rows) ∧
        (places tmpl server rows).length ≤ 32 ∧ ∀ q ∈ places tmpl server rows, q.2 ≤ 99999 := by
  constructor
  · intro complete
    refine ⟨fun row member q heard => ?_, ?_⟩
    · have listed := complete.critical row member q heard
      rw [criticalPortsCSV_places live] at listed
      exact (portEntry_mem_csv places_place (listens_place documented q heard)).mp listed
    · have accepted := complete.accepted
      rw [criticalPortsCSV_places live] at accepted
      exact (criticalCsvAccepted_iff places_place).mp accepted
  · rintro ⟨placed, fits⟩
    refine ⟨fun row member q heard => ?_, fun row member q heard => ?_, ?_⟩
    · have pair : q ∈ (serverBaseline tmpl server rows).map (fun bp => (bp.proto, bp.port)) := by
        rw [serverBaseline_pairs live]
        exact List.mem_cons_of_mem _ (List.mem_of_mem_filter (placed row member q heard))
      exact List.mem_map.mp pair
    · rw [criticalPortsCSV_places live]
      exact (portEntry_mem_csv places_place (listens_place documented q heard)).mpr (placed row member q heard)
    · rw [criticalPortsCSV_places live]
      exact (criticalCsvAccepted_iff places_place).mpr fits

end

theorem places_sublist {tmpl : Template} {server : Server} {some' rows : List Row} (sub : some'.Sublist rows) :
    (places tmpl server some').Sublist (places tmpl server rows) :=
  ((sub.flatMap _).append_right _).filter _

/-- Every set of a server's instances that is up is completely protected
exactly when every instance is watched, none listens on the SSH port, and all
of them together fit into the critical list. -/
theorem baseline_complete_iff (core : XrayCore) (documented : core.Documented) (files : List Xray.FileModule)
    (tmpl : Template) (server : Server) (rows : List Row) (live : ∀ row ∈ rows, row.Live) :
    (∀ up : List Row, up.Sublist rows → Complete core files tmpl server up) ↔
      (∀ row ∈ rows, Watched core files tmpl server row ∧
        (Word.tcp, server.sshPort) ∉ listens core files tmpl row) ∧
      (places tmpl server rows).length ≤ 32 ∧ ∀ q ∈ places tmpl server rows, q.2 ≤ 99999 := by
  constructor
  · intro complete
    refine ⟨fun row member => ?_, ((complete_iff documented live).mp (complete rows (.refl rows))).2⟩
    have alone := (complete_iff documented (by simpa using live row member)).mp
      (complete [row] (List.singleton_sublist.mpr member))
    have placed : ∀ q ∈ listens core files tmpl row,
        (q ∈ onRecord tmpl row ∨ q ∈ panelPairs server) ∧ q ≠ (Word.tcp, server.sshPort) := by
      intro q heard
      simpa [mem_places] using alone.1 row (by simp) q heard
    exact ⟨(watched_iff documented).mpr fun q heard => (placed q heard).1, fun ssh => (placed _ ssh).2 rfl⟩
  · rintro ⟨watched, length, short⟩ up sub
    have inside : (places tmpl server up).Sublist (places tmpl server rows) := places_sublist sub
    refine (complete_iff documented fun row member => live row (sub.subset member)).mpr ⟨?_, ?_, ?_⟩
    · intro row member q heard
      obtain ⟨watch, notSsh⟩ := watched row (sub.subset member)
      refine mem_places.mpr
        ⟨((watched_iff documented).mp watch q heard).imp (fun recorded => ⟨row, member, recorded⟩) id, ?_⟩
      rintro rfl
      exact notSsh heard
    · exact inside.length_le.trans length
    · exact fun q member => short q (inside.subset member)

def textOf : Option Json → Text
  | some (.str t) => t
  | _ => []

def shadowsocksNetworks (network : Text) : List Text :=
  if network = "tcp,udp".toList then [Word.tcp, Word.udp]
  else if network = "udp".toList then [Word.udp]
  else [Word.tcp]

def streamNetworks (network : Text) : List Text :=
  if network ∈ ["kcp".toList, "mkcp".toList, "quic".toList] then [Word.udp] else [Word.tcp]

/-- The networks of an inbound: Shadowsocks has a list of its own, the others
a stream transport, some of which are datagrams. -/
def inboundNetworks (inbound : Json) : List Text :=
  if textOf (inbound.field "protocol") = "shadowsocks".toList then
    shadowsocksNetworks (textOf (inbound.path "settings" "network"))
  else streamNetworks (textOf (inbound.path "streamSettings" "network"))

/-- The core as its documentation has it for numeric ports. -/
def plainCore : XrayCore where
  listens inbound :=
    match inbound.field "port" with
    | some (.num q) =>
      if q.den = 1 ∧ bindable q.num then (inboundNetworks inbound).map fun proto => (proto, q.num) else []
    | _ => []

theorem plainCore_listens {inbound : Json} {port : Int} (given : inbound.field "port" = some (.int port)) :
    plainCore.listens inbound =
      if bindable port then (inboundNetworks inbound).map fun proto => (proto, port) else [] := by
  simp [plainCore, given, Json.int]

theorem plainCore_documented : plainCore.Documented where
  ranged := by
    have proto : ∀ inbound, ∀ t ∈ inboundNetworks inbound, t = Word.tcp ∨ t = Word.udp := by
      intro inbound t member
      unfold inboundNetworks shadowsocksNetworks streamNetworks at member
      split_ifs at member <;> simp_all
    intro inbound q member
    simp only [plainCore] at member
    split at member
    · split at member
      · rename_i fits
        obtain ⟨t, inside, rfl⟩ := List.mem_map.mp member
        exact ⟨proto inbound t inside, fits.2⟩
      · cases member
    · cases member
  stream := by
    intro inbound port protocol network given named stream path carried
    have networks : inboundNetworks inbound = [Word.tcp] := by
      have other : protocol.toList ≠ "shadowsocks".toList := by
        simp only [List.mem_cons, List.not_mem_nil, or_false] at stream
        rcases stream with rfl | rfl | rfl <;> decide
      have plain : network.toList ∉ ["kcp".toList, "mkcp".toList, "quic".toList] := by
        simp only [List.mem_cons, List.not_mem_nil, or_false] at carried
        rcases carried with rfl | rfl | rfl <;> decide
      rw [inboundNetworks, named, path, Json.text, Json.text, textOf, textOf, if_neg other, streamNetworks,
        if_neg plain]
    rw [plainCore_listens given, networks]
    rfl
  shadowsocks := by
    intro inbound port given named path _
    have networks : inboundNetworks inbound = [Word.tcp, Word.udp] := by
      rw [inboundNetworks, named, path, Json.text, Json.text, textOf, textOf, if_pos rfl, shadowsocksNetworks,
        if_pos rfl]
    rw [plainCore_listens given, networks]
    rfl

def ovpnRow : Row := (⟨"server".toList, .openvpn, [("proto", Word.tcp)]⟩, liveSeen 0 none)

def trojanRow : Row :=
  (⟨"xray".toList, .xray, []⟩,
    liveSeen 0 (some ("trojan-tcp-tls".toList, [("port", ['8', '4', '4', '3']), ("domain", "vpn".toList)])))

def shadowsocksRow : Row :=
  (⟨"xray".toList, .xray, []⟩, liveSeen 0 (some ("shadowsocks-2022".toList, [("port", ['8', '3', '8', '8'])])))

theorem trojanRow_listens : listens plainCore [] sampleTemplate trojanRow = [(Word.tcp, 8443)] := by decide

theorem shadowsocksRow_listens :
    listens plainCore [] sampleTemplate shadowsocksRow = [(Word.tcp, 8388), (Word.udp, 8388)] := by decide

theorem baseline_complete_iff_sample :
    Complete plainCore [] sampleTemplate sampleServer [wgRow, ovpnRow, trojanRow] := by
  refine (baseline_complete_iff plainCore plainCore_documented [] sampleTemplate sampleServer
    [wgRow, ovpnRow, trojanRow] ?_).mpr ⟨?_, by decide, by decide⟩ _ (.refl _)
  · simp only [List.forall_mem_cons]
    exact ⟨⟨rfl, rfl, rfl, by decide⟩, ⟨rfl, rfl, rfl, by decide⟩, ⟨rfl, rfl, rfl, fun _ => rfl⟩, by simp⟩
  · have openvpn : openvpnTransport (openvpnProto sampleTemplate ovpnRow.1) = some Word.tcp := by decide
    simp only [List.forall_mem_cons]
    refine ⟨⟨trivial, by decide⟩, ⟨?_, by decide⟩, ⟨?_, ?_⟩, by simp⟩
    · intro transport taken _
      rw [openvpn] at taken
      exact .inl ⟨fun _ => rfl, fun _ => (Option.some.inj taken).symm⟩
    · rw [watched_iff plainCore_documented, trojanRow_listens]
      decide
    · rw [trojanRow_listens]
      decide

/-- A Shadowsocks instance listens on UDP too, and that port is in neither list. -/
theorem shadowsocks_udp_unprotected :
    shadowsocksRow.Live ∧ (Word.udp, 8388) ∈ listens plainCore [] sampleTemplate shadowsocksRow ∧
      ¬Complete plainCore [] sampleTemplate sampleServer [shadowsocksRow] := by
  have heard : (Word.udp, 8388) ∈ listens plainCore [] sampleTemplate shadowsocksRow := by
    rw [shadowsocksRow_listens]
    simp
  have live : shadowsocksRow.Live := ⟨rfl, rfl, rfl, fun _ => rfl⟩
  refine ⟨live, heard, fun complete => ?_⟩
  have placed := ((complete_iff plainCore_documented (by simpa using live)).mp complete).1 shadowsocksRow
    (by simp) _ heard
  revert placed
  decide

end Protean.Firewall
