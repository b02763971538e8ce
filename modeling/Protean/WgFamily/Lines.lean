import Protean.WgFamily.RoundTrip

namespace Protean.WgFamily

/-- What a line of the file is to the parser. -/
inductive Line
  | ignored
  | name (name : Text)
  | interface
  | peer
  | option (kv : KV)
  deriving DecidableEq, Repr

def Line.read (raw : Text) : Line :=
  let line := Text.trimSpace raw
  if line = [] then .ignored
  else if line.head? = some '#' then
    match Text.cutPrefix nameMark line with
    | some n => .name (Text.trimSpace n)
    | none => .ignored
  else if line = interfaceHeader then .interface
  else if line = peerHeader then .peer
  else
    match Text.cut '=' line with
    | none => .ignored
    | some (key, value) => .option ⟨Text.trimSpace key, Text.trimSpace value⟩

def Parser.take (p : Parser) : Line → Parser
  | .ignored => p
  | .name name => { p with nextName := name }
  | .interface => { p.flush with sec := .interface, name := [] }
  | .peer => { p.flush with sec := .peer, name := p.nextName, nextName := [] }
  | .option kv => { p with opts := p.opts ++ [kv] }

def Line.option? : Line → Option KV
  | .option kv => some kv
  | _ => none

theorem Line.option?_eq_some {line : Line} {kv : KV} : line.option? = some kv ↔ line = .option kv := by
  cases line <;> simp [Line.option?]

/-- The name that is pending after a line. -/
def Line.pending (before : Text) : Line → Text
  | .name n => n
  | _ => before

/-- The name that is pending after lines that begin no peer. -/
def pendingName (before : Text) (ls : List Text) : Text := ls.foldl (fun name l => (Line.read l).pending name) before

section
variable {p : Parser}

theorem Parser.line_eq_take (p : Parser) (raw : Text) : p.line (Text.trimSpace raw) = p.take (Line.read raw) := by
  unfold Parser.line Line.read
  dsimp only
  split
  · rfl
  split
  · cases Text.cutPrefix nameMark (Text.trimSpace raw) <;> rfl
  split
  · rfl
  split
  · rfl
  · cases Text.cut '=' (Text.trimSpace raw) <;> rfl

theorem Parser.read_cons_take (l : Text) (ls : List Text) : p.read (l :: ls) = (p.take (Line.read l)).read ls := by
  rw [Parser.read_cons, Parser.line_eq_take]

/-- The options read in the section that is open count as its own. -/
theorem Parser.flush_take (p : Parser) (line : Line) : (p.take line).flush.cf =
    match line, p.sec with
    | .peer, _ => { p.flush.cf with peers := p.flush.cf.peers ++ [⟨p.nextName, []⟩] }
    | .option kv, .interface => { p.flush.cf with interfaceOpts := p.flush.cf.interfaceOpts ++ [kv] }
    | .option kv, .peer => { p.cf with peers := p.cf.peers ++ [⟨p.name, p.opts ++ [kv]⟩] }
    | _, _ => p.flush.cf := by
  cases line <;> cases open' : p.sec <;> simp [Parser.take, Parser.flush, open']

/-- Only the header of a peer adds one. -/
theorem Parser.length_peers_take (p : Parser) (line : Line) :
    (p.take line).flush.cf.peers.length = p.flush.cf.peers.length + if line = .peer then 1 else 0 := by
  rw [Parser.flush_take]
  cases line <;> cases open' : p.sec <;> simp [Parser.flush, open']

theorem Parser.length_peers_read (p : Parser) (ls : List Text) :
    (p.read ls).flush.cf.peers.length = p.flush.cf.peers.length + ls.countP fun l => Line.read l = .peer := by
  induction ls generalizing p with
  | nil => rfl
  | cons l ls ih =>
    rw [Parser.read_cons_take, ih, Parser.length_peers_take, List.countP_cons]
    simp only [decide_eq_true_eq]
    omega

/-- What lines without the header of a peer leave of the interface section. -/
structure Parser.Inside (p q : Parser) (ls : List Text) : Prop where
  sec : q.sec = .interface
  cf : q.flush.cf =
    { p.flush.cf with interfaceOpts := p.flush.cf.interfaceOpts ++ ls.filterMap fun l => (Line.read l).option? }
  nextName : q.nextName = pendingName p.nextName ls

theorem Parser.read_inside {ls : List Text} (inside : p.sec = .interface) (noPeer : ∀ l ∈ ls, Line.read l ≠ .peer) :
    p.Inside (p.read ls) ls := by
  induction ls generalizing p with
  | nil => exact ⟨inside, by simp [Parser.read], rfl⟩
  | cons l ls ih =>
    rw [List.forall_mem_cons] at noPeer
    have step : (p.take (Line.read l)).sec = .interface ∧
        (p.take (Line.read l)).nextName = (Line.read l).pending p.nextName ∧
        (p.take (Line.read l)).flush.cf =
          { p.flush.cf with interfaceOpts := p.flush.cf.interfaceOpts ++ (Line.read l).option?.toList } := by
      rw [Parser.flush_take, inside]
      cases kind : Line.read l with
      | peer => exact absurd kind noPeer.1
      | ignored | name name | option kv => simp [Parser.take, Line.pending, Line.option?, inside]
      | interface => simp [Parser.take, Line.pending, Line.option?, Parser.flush, inside]
    obtain ⟨sec, nextName, cf⟩ := step
    have rest := ih sec noPeer.2
    rw [Parser.read_cons_take]
    refine ⟨rest.sec, ?_, ?_⟩
    · rw [rest.cf, cf]
      cases kind : (Line.read l).option? <;> simp [kind]
    · rw [rest.nextName, nextName]
      rfl

theorem Line.read_optionLine {kv : KV} (valid : kv.KeyValid) :
    Line.read (optionLine kv) = .option ⟨kv.key, Text.trimSpace kv.value⟩ := by
  have taken := Parser.line_eq_take {} (optionLine kv)
  rw [Parser.line_optionLine valid] at taken
  have opts := congrArg Parser.opts taken
  cases kind : Line.read (optionLine kv) <;> rw [kind] at opts <;> simp [Parser.take, Parser.flush] at opts ⊢
  exact opts.symm

end

section
variable {kv : KV}

/-- The lines that a value brings into the file after its own. -/
def addedLines (kv : KV) : List Text := (Text.lines kv.value).tail

/-- The option as its own line alone gives it. -/
def KV.firstLine (kv : KV) : KV := ⟨kv.key, (Text.lines kv.value).headD []⟩

theorem addedLines_of_single (single : '\n' ∉ kv.value) : addedLines kv = [] := by
  rw [addedLines, Text.lines, List.splitOn_eq_singleton single, List.tail_cons]

theorem KV.KeyValid.firstLine (valid : kv.KeyValid) : kv.firstLine.KeyValid := valid.of_key rfl

theorem lines_optionLine (valid : kv.KeyValid) :
    Text.lines (optionLine kv) = optionLine kv.firstLine :: addedLines kv := by
  obtain ⟨first, rest, shape⟩ : ∃ first rest, Text.lines kv.value = first :: rest :=
    List.exists_cons_of_ne_nil (List.splitOn_ne_nil _ _)
  have whole : kv.value = ['\n'].intercalate (first :: rest) := by
    rw [← shape, Text.lines, List.intercalate_splitOn]
  have single : ∀ l ∈ first :: rest, '\n' ∉ l := by
    rw [← shape]
    exact fun l member => Text.not_mem_of_mem_splitOn member
  rw [List.forall_mem_cons] at single
  have start : '\n' ∉ optionLine ⟨kv.key, first⟩ := by
    simp [optionLine, valid.plain.2, single.1]
  have joined : optionLine kv = ['\n'].intercalate (optionLine ⟨kv.key, first⟩ :: rest) := by
    rw [optionLine, whole]
    cases rest with
    | nil => simp [optionLine]
    | cons l ls => simp [optionLine, List.intercalate_cons_cons]
  rw [KV.firstLine, addedLines, shape, List.headD_cons, List.tail_cons]
  exact (Text.splitOn_eq_iff (by simp)).mpr ⟨joined, List.forall_mem_cons.mpr ⟨start, single.2⟩⟩

end

section
variable {cf : ConfFile}

/-- The lines of the interface section under its header. -/
def interfaceLines (opts : List KV) : List Text := opts.flatMap fun kv => Text.lines (optionLine kv)

theorem unlines_interfaceLines (opts : List KV) : Text.unlines (interfaceLines opts) = opts.flatMap renderKV := by
  rw [interfaceLines, unlines_flatMap]
  refine List.flatMap_congr fun kv _ => ?_
  rw [Text.unlines_lines, optionLine, renderKV]
  simp

theorem interfaceLines_append (opts more : List KV) :
    interfaceLines (opts ++ more) = interfaceLines opts ++ interfaceLines more := List.flatMap_append

theorem interfaceLines_of_valid {opts : List KV} (valid : ∀ kv ∈ opts, kv.Valid) :
    interfaceLines opts = opts.map optionLine := by
  induction opts with
  | nil => rfl
  | cons kv opts ih =>
    rw [List.forall_mem_cons] at valid
    have first : Text.lines (optionLine kv) = [optionLine kv] := List.splitOn_eq_singleton (optionLine_single valid.1)
    rw [interfaceLines, List.flatMap_cons, first]
    exact congrArg _ (ih valid.2)

/-- The lines of a peer whose values may have several lines. -/
def blockLines (peer : ConfPeer) : List Text :=
  [] :: ((if peer.name ≠ [] then [nameLine peer.name] else []) ++ peerHeader :: interfaceLines peer.opts)

theorem blockLines_of_valid {peer : ConfPeer} (valid : ∀ kv ∈ peer.opts, kv.Valid) :
    blockLines peer = peerLines peer := by
  rw [blockLines, peerLines, interfaceLines_of_valid valid]

theorem unlines_blockLines (peer : ConfPeer) : Text.unlines (blockLines peer) = renderPeer peer := by
  rw [blockLines, renderPeer, Text.unlines_cons, Text.unlines_append, Text.unlines_cons, unlines_interfaceLines]
  split
  · simp [Text.unlines, nameLine]
  · simp [Text.unlines]

theorem interfaceLines_single (opts : List KV) : ∀ l ∈ interfaceLines opts, '\n' ∉ l := by
  intro l member
  obtain ⟨kv, _, listed⟩ := List.mem_flatMap.mp member
  exact Text.not_mem_of_mem_splitOn listed

theorem blockLines_single (peer : ConfPeer) : ∀ l ∈ blockLines peer, '\n' ∉ l := by
  intro l member
  rcases List.mem_cons.mp member with rfl | member
  · simp
  rcases List.mem_append.mp member with name | member
  · split at name
    · rw [List.mem_singleton.mp name]
      have mark : '\n' ∉ nameMark := by decide
      simp [nameLine, mark, newline_not_mem_safeName]
    · cases name
  · rcases List.mem_cons.mp member with rfl | own
    · decide
    · exact interfaceLines_single peer.opts l own

/-- Any file, read back line by line. -/
theorem parseConf_render_lines (cf : ConfFile) :
    parseConf cf.render = (Parser.read { sec := .interface }
      (interfaceLines cf.interfaceOpts ++ cf.peers.flatMap blockLines)).flush.cf := by
  have whole : cf.render =
      Text.unlines (interfaceHeader :: (interfaceLines cf.interfaceOpts ++ cf.peers.flatMap blockLines)) := by
    rw [Text.unlines_cons, Text.unlines_append, unlines_interfaceLines, unlines_flatMap, ConfFile.render]
    simp only [unlines_blockLines]
  have single : ∀ l ∈ interfaceHeader :: (interfaceLines cf.interfaceOpts ++ cf.peers.flatMap blockLines), '\n' ∉ l := by
    intro l member
    rcases List.mem_cons.mp member with rfl | member
    · decide
    rcases List.mem_append.mp member with own | member
    · exact interfaceLines_single _ l own
    · obtain ⟨peer, _, listed⟩ := List.mem_flatMap.mp member
      exact blockLines_single peer l listed
  have blank : ∀ p : Parser, p.read [[]] = p := fun p => rfl
  have header : ({} : Parser).line (Text.trimSpace interfaceHeader) = { sec := .interface } := rfl
  rw [parseConf, whole, Text.lines_unlines single, Parser.read_append, blank, Parser.read_cons, header]

theorem flatMap_blockLines {peers : List ConfPeer} (valid : ∀ p ∈ peers, ∀ kv ∈ p.opts, kv.Valid) :
    peers.flatMap blockLines = peers.flatMap peerLines :=
  List.flatMap_congr fun peer member => blockLines_of_valid (valid peer member)

/-- A file whose interface values may have several lines, read back. -/
theorem parseConf_render_values (peers : ∀ p ∈ cf.peers, ∀ kv ∈ p.opts, kv.Valid) :
    parseConf cf.render =
      let p := Parser.read { sec := .interface } (interfaceLines cf.interfaceOpts)
      { p.flush.cf with peers := p.flush.cf.peers ++ peersAfter p.nextName cf.peers } := by
  rw [parseConf_render_lines, flatMap_blockLines peers, Parser.read_append, Parser.read_peers peers]

/-- What is read back of an option. -/
def KV.readOpts (kv : KV) : List KV :=
  ⟨kv.key, Text.trimSpace kv.firstLine.value⟩ :: (addedLines kv).filterMap fun l => (Line.read l).option?

/-- A value of one line comes back alone. -/
theorem KV.Valid.readOpts {kv : KV} (valid : kv.Valid) : kv.readOpts = [kv] := by
  have first : kv.firstLine.value = kv.value := by
    rw [KV.firstLine, Text.lines, List.splitOn_eq_singleton valid.value_plain, List.headD_cons]
  rw [KV.readOpts, addedLines_of_single valid.value_plain, first, valid.value_trimmed]
  rfl

section
variable {opts : List KV} (keys : ∀ kv ∈ opts, kv.KeyValid)

include keys

theorem interfaceLines_eq :
    interfaceLines opts = opts.flatMap fun kv => optionLine kv.firstLine :: addedLines kv :=
  List.flatMap_congr fun kv member => lines_optionLine (keys kv member)

theorem countP_interfaceLines :
    (interfaceLines opts).countP (fun l => Line.read l = .peer) =
      (opts.flatMap addedLines).countP fun l => Line.read l = .peer := by
  rw [interfaceLines_eq keys]
  induction opts with
  | nil => rfl
  | cons kv opts ih =>
    rw [List.forall_mem_cons] at keys
    rw [List.flatMap_cons, List.flatMap_cons, List.countP_append, List.countP_append, ih keys.2, List.countP_cons_of_neg]
    simp [Line.read_optionLine keys.1.firstLine]

theorem filterMap_interfaceLines :
    ((interfaceLines opts).filterMap fun l => (Line.read l).option?) = opts.flatMap KV.readOpts := by
  rw [interfaceLines_eq keys]
  induction opts with
  | nil => rfl
  | cons kv opts ih =>
    rw [List.forall_mem_cons] at keys
    rw [List.flatMap_cons, List.flatMap_cons, List.filterMap_append, ih keys.2, List.filterMap_cons,
      Line.read_optionLine keys.1.firstLine]
    rfl

theorem pendingName_interfaceLines (before : Text) :
    pendingName before (interfaceLines opts) = pendingName before (opts.flatMap addedLines) := by
  have append : ∀ (before : Text) (ls ms : List Text),
      pendingName before (ls ++ ms) = pendingName (pendingName before ls) ms := fun _ _ _ => List.foldl_append
  rw [interfaceLines_eq keys]
  induction opts generalizing before with
  | nil => rfl
  | cons kv opts ih =>
    rw [List.forall_mem_cons] at keys
    have first : pendingName before (optionLine kv.firstLine :: addedLines kv) = pendingName before (addedLines kv) := by
      rw [pendingName, List.foldl_cons, Line.read_optionLine keys.1.firstLine]
      rfl
    rw [List.flatMap_cons, List.flatMap_cons, append, append, first, ih keys.2]

end

theorem length_peersAfter (pending : Text) (peers : List ConfPeer) :
    (peersAfter pending peers).length = peers.length := by
  induction peers generalizing pending with
  | nil => rfl
  | cons peer peers ih => simp [peersAfter, ih]

section
variable (keys : ∀ kv ∈ cf.interfaceOpts, kv.KeyValid) (peers : ∀ p ∈ cf.peers, ∀ kv ∈ p.opts, kv.Valid)

include keys peers

/-- Every line that begins a peer gives one. -/
theorem length_peers_parseConf_render :
    (parseConf cf.render).peers.length =
      ((cf.interfaceOpts.flatMap addedLines).countP fun l => Line.read l = .peer) + cf.peers.length := by
  rw [parseConf_render_values peers]
  dsimp only
  rw [List.length_append, length_peersAfter, Parser.length_peers_read, countP_interfaceLines keys]
  simp [Parser.flush]

/-- Without such lines the whole file is known. -/
theorem parseConf_render_inside (noPeer : ∀ l ∈ cf.interfaceOpts.flatMap addedLines, Line.read l ≠ .peer) :
    parseConf cf.render = ⟨cf.interfaceOpts.flatMap KV.readOpts,
      peersAfter (pendingName [] (cf.interfaceOpts.flatMap addedLines)) cf.peers⟩ := by
  have none : ∀ l ∈ interfaceLines cf.interfaceOpts, Line.read l ≠ .peer := by
    have added : (cf.interfaceOpts.flatMap addedLines).countP (fun l => Line.read l = .peer) = 0 :=
      List.countP_eq_zero.mpr fun l member => by simp [noPeer l member]
    have zero := (countP_interfaceLines keys).trans added
    exact fun l member => by simpa using List.countP_eq_zero.mp zero l member
  have inside := Parser.read_inside (p := { sec := .interface }) rfl none
  rw [parseConf_render_values peers]
  dsimp only
  rw [inside.cf, inside.nextName, filterMap_interfaceLines keys, pendingName_interfaceLines keys]
  simp [Parser.flush]

end

theorem cleanName_eq_self_iff {name : Text} (read : ReadName name) : cleanName name = name ↔ '\r' ∉ name := by
  rw [cleanName_of_read read]
  constructor
  · intro same member
    obtain ⟨c, _, cr⟩ := List.mem_map.mp (same.symm ▸ member)
    unfold crToSpace at cr
    split at cr
    · cases cr
    · rename_i other
      exact other cr
  · intro fresh
    refine (List.map_congr_left fun c member => ?_).trans (List.map_id _)
    have other : c ≠ '\r' := fun cr => fresh (cr ▸ member)
    simp [crToSpace, other]

theorem peersAfter_eq_self_iff {pending : Text} {peers : List ConfPeer} (read : ∀ p ∈ peers, ReadName p.name) :
    peersAfter pending peers = peers ↔
      (∀ p ∈ peers.head?, p.name = [] → pending = []) ∧ ∀ p ∈ peers, '\r' ∉ p.name := by
  have named : ∀ {pending : Text} {p : ConfPeer}, ReadName p.name → (nameAfter pending p.name = p.name ↔
      (p.name = [] → pending = []) ∧ '\r' ∉ p.name) := by
    intro pending p read
    unfold nameAfter
    split
    · rename_i empty
      simp [empty]
    · rename_i some
      simp [some, cleanName_eq_self_iff read]
  induction peers generalizing pending with
  | nil => simp [peersAfter]
  | cons p peers ih =>
    rw [List.forall_mem_cons] at read
    have rest : peersAfter [] peers = peers ↔ _ := ih read.2
    have each : peersAfter pending (p :: peers) = p :: peers ↔
        nameAfter pending p.name = p.name ∧ peersAfter [] peers = peers := by
      rw [peersAfter, List.cons.injEq]
      refine and_congr_left fun _ => ?_
      obtain ⟨name, opts⟩ := p
      simp
    rw [each, named read.1]
    refine (and_congr_right' rest).trans ?_
    simp [and_assoc]

theorem map_cleanName_eq_iff {peers : List ConfPeer} (read : ∀ p ∈ peers, ReadName p.name) :
    peers.map (fun p => (⟨cleanName p.name, p.opts⟩ : ConfPeer)) = peers ↔ ∀ p ∈ peers, '\r' ∉ p.name := by
  rw [← peersAfter_nil, peersAfter_eq_self_iff read]
  exact and_iff_right fun _ _ _ => rfl

end

def ConfFile.append (a b : ConfFile) : ConfFile := ⟨a.interfaceOpts ++ b.interfaceOpts, a.peers ++ b.peers⟩

/-- The same parser, with other contents read before. -/
def Parser.after (before : ConfFile) (p : Parser) : Parser := { p with cf := before.append p.cf }

section
variable {before : ConfFile} {p : Parser}

theorem Parser.flush_after : (p.after before).flush = p.flush.after before := by
  obtain ⟨cf, sec, opts, name, nextName⟩ := p
  cases sec <;> simp [Parser.flush, Parser.after, ConfFile.append]

/-- What was read before does not matter for what comes. -/
theorem Parser.read_after (ls : List Text) : (p.after before).read ls = (p.read ls).after before := by
  induction ls generalizing p with
  | nil => rfl
  | cons l ls ih =>
    have step : (p.after before).take (Line.read l) = (p.take (Line.read l)).after before := by
      cases Line.read l with
      | interface | peer => simp only [Parser.take, Parser.flush_after]; rfl
      | ignored => rfl
      | name name => rfl
      | option kv => rfl
    rw [Parser.read_cons_take, Parser.read_cons_take, step, ih]

/-- The options that lines hold before the next section. -/
def blockOpts : List Text → List KV
  | [] => []
  | l :: ls =>
    match Line.read l with
    | .option kv => kv :: blockOpts ls
    | .interface => []
    | .peer => []
    | _ => blockOpts ls

theorem blockOpts_append_of_valid {opts : List KV} (valid : ∀ kv ∈ opts, kv.Valid) (ls : List Text) :
    blockOpts (interfaceLines opts ++ ls) = opts ++ blockOpts ls := by
  rw [interfaceLines_of_valid valid]
  induction opts with
  | nil => rfl
  | cons kv opts ih =>
    rw [List.forall_mem_cons] at valid
    rw [List.map_cons, List.cons_append, blockOpts, Line.read_optionLine valid.1.keyValid]
    dsimp only
    rw [ih valid.2, valid.1.value_trimmed, List.cons_append]

/-- Options of one line each come back trimmed. -/
theorem blockOpts_of_single {opts : List KV} (single : ∀ kv ∈ opts, kv.KeyValid ∧ '\n' ∉ kv.value) :
    blockOpts (interfaceLines opts) = opts.map fun kv => ⟨kv.key, Text.trimSpace kv.value⟩ := by
  induction opts with
  | nil => rfl
  | cons kv opts ih =>
    rw [List.forall_mem_cons] at single
    have line : Text.lines (optionLine kv) = [optionLine kv] :=
      List.splitOn_eq_singleton (by simp [optionLine, single.1.1.plain.2, single.1.2])
    have shape : interfaceLines (kv :: opts) = optionLine kv :: interfaceLines opts := by
      rw [interfaceLines, List.flatMap_cons, line]
      rfl
    rw [shape, blockOpts, Line.read_optionLine single.1.1, List.map_cons, ← ih single.2]

/-- No peer that was read is lost later. -/
theorem Parser.peers_read (p : Parser) (ls : List Text) : ∃ more, (p.read ls).flush.cf.peers = p.cf.peers ++ more := by
  have same : p = ({ p with cf := {} } : Parser).after p.cf := by
    obtain ⟨⟨interfaceOpts, peers⟩, sec, opts, name, nextName⟩ := p
    simp [Parser.after, ConfFile.append]
  refine ⟨(({ p with cf := {} } : Parser).read ls).flush.cf.peers, ?_⟩
  conv_lhs => rw [same, Parser.read_after, Parser.flush_after]
  rfl

/-- A block has the options up to the next section. -/
theorem Parser.read_block (inside : p.sec = .peer) (ls : List Text) :
    ∃ more, (p.read ls).flush.cf.peers = p.cf.peers ++ ⟨p.name, p.opts ++ blockOpts ls⟩ :: more := by
  induction ls generalizing p with
  | nil => exact ⟨[], by simp [Parser.read, Parser.flush, inside, blockOpts]⟩
  | cons l ls ih =>
    have flushed : p.flush.cf.peers = p.cf.peers ++ [⟨p.name, p.opts⟩] := by simp [Parser.flush, inside]
    rw [Parser.read_cons_take, blockOpts]
    cases Line.read l with
    | ignored => exact ih inside
    | name name => exact ih (p := { p with nextName := name }) inside
    | option kv =>
      obtain ⟨more, read⟩ := ih (p := { p with opts := p.opts ++ [kv] }) inside
      exact ⟨more, by simpa [Parser.take] using read⟩
    | interface =>
      obtain ⟨more, read⟩ := Parser.peers_read (p.take .interface) ls
      exact ⟨more, by simpa [Parser.take, flushed] using read⟩
    | peer =>
      obtain ⟨more, read⟩ := Parser.peers_read (p.take .peer) ls
      exact ⟨more, by simpa [Parser.take, flushed] using read⟩

theorem Parser.nextName_read_peers {peers : List ConfPeer} (valid : ∀ peer ∈ peers, ∀ kv ∈ peer.opts, kv.Valid)
    (none : p.nextName = []) : (p.read (peers.flatMap peerLines)).nextName = [] := by
  induction peers generalizing p with
  | nil => exact none
  | cons peer peers ih =>
    rw [List.forall_mem_cons] at valid
    rw [List.flatMap_cons, Parser.read_append, Parser.read_peer peer valid.1]
    exact ih valid.2 rfl

/-- What the parser makes of the options of a block alone. -/
def ConfPeer.parsed (peer : ConfPeer) : Parser :=
  Parser.read { sec := .peer, name := nameAfter [] peer.name } (interfaceLines peer.opts)

theorem ConfPeer.peers_parsed (peer : ConfPeer) :
    ∃ more, peer.parsed.flush.cf.peers = ⟨nameAfter [] peer.name, blockOpts (interfaceLines peer.opts)⟩ :: more :=
  Parser.read_block (p := { sec := .peer, name := nameAfter [] peer.name }) rfl _

/-- A file in which one block may have values of several lines, read back. -/
theorem parseConf_render_block {interfaceOpts : List KV} {pre post : List ConfPeer} (peer : ConfPeer)
    (options : ∀ kv ∈ interfaceOpts, kv.Valid) (first : ∀ p ∈ pre, ∀ kv ∈ p.opts, kv.Valid)
    (last : ∀ p ∈ post, ∀ kv ∈ p.opts, kv.Valid) :
    parseConf (ConfFile.render ⟨interfaceOpts, pre ++ peer :: post⟩) =
      ⟨interfaceOpts ++ peer.parsed.flush.cf.interfaceOpts,
        pre.map (fun p => ⟨cleanName p.name, p.opts⟩) ++ (peer.parsed.flush.cf.peers ++
          peersAfter peer.parsed.nextName post)⟩ := by
  have lines : (pre ++ peer :: post).flatMap blockLines =
      pre.flatMap peerLines ++ (blockLines peer ++ post.flatMap peerLines) := by
    rw [List.flatMap_append, List.flatMap_cons, flatMap_blockLines first, flatMap_blockLines last]
  let start := Parser.read { sec := .interface } (interfaceOpts.map optionLine ++ pre.flatMap peerLines)
  have read : start.flush.cf = ⟨interfaceOpts, pre.map fun p => ⟨cleanName p.name, p.opts⟩⟩ ∧ start.nextName = [] := by
    dsimp only [start]
    rw [Parser.read_append, Parser.read_options options]
    refine ⟨?_, Parser.nextName_read_peers first rfl⟩
    rw [Parser.read_peers first, peersAfter_nil]
    simp [Parser.flush]
  have block : start.read (blockLines peer) = peer.parsed.after start.flush.cf := by
    rw [blockLines, Parser.read_header, ConfPeer.parsed, ← Parser.read_after, read.2]
    congr 1
    simp [Parser.after, ConfFile.append]
  rw [parseConf_render_lines, lines, interfaceLines_of_valid options, ← List.append_assoc, Parser.read_append,
    Parser.read_append]
  change ((start.read (blockLines peer)).read _).flush.cf = _
  rw [block, Parser.read_peers last, Parser.flush_after, read.1]
  simp [Parser.after, ConfFile.append]

end

end Protean.WgFamily
