import Protean.WgFamily.Conf

namespace Protean.WgFamily

section
variable {p : Parser} {kv : KV}

theorem Parser.read_append (ls ms : List Text) : p.read (ls ++ ms) = (p.read ls).read ms := List.foldl_append

theorem Parser.read_cons (l : Text) (ls : List Text) : p.read (l :: ls) = (p.line (Text.trimSpace l)).read ls := rfl

theorem Parser.line_option {key value : Text} (fresh : '=' ∉ key) (option : (key ++ '=' :: value).head? ≠ some '#') :
    p.line (key ++ '=' :: value) = { p with opts := p.opts ++ [⟨Text.trimSpace key, Text.trimSpace value⟩] } := by
  have sign : '=' ∈ key ++ '=' :: value := by simp
  have interface : key ++ '=' :: value ≠ interfaceHeader := fun same => absurd (same ▸ sign) (by decide)
  have peer : key ++ '=' :: value ≠ peerHeader := fun same => absurd (same ▸ sign) (by decide)
  have parts : Text.cut '=' (key ++ '=' :: value) = some (key, value) := Text.cut_eq_some_iff.mpr ⟨rfl, fresh⟩
  rw [Parser.line, if_neg (by simp), if_neg option, if_neg interface, if_neg peer, parts]

/-- What `Valid` asks of the key alone. -/
structure KV.KeyValid (kv : KV) : Prop where
  trimmed : Text.trimSpace kv.key = kv.key
  plain : '=' ∉ kv.key ∧ '\n' ∉ kv.key
  option : kv.key.head? ≠ some '#'

theorem KV.Valid.keyValid (valid : kv.Valid) : kv.KeyValid := ⟨valid.key_trimmed, valid.key_plain, valid.key_option⟩

theorem KV.KeyValid.of_key {other : KV} (valid : kv.KeyValid) (same : other.key = kv.key) : other.KeyValid := by
  obtain ⟨trimmed, plain, option⟩ := valid
  rw [← same] at trimmed plain option
  exact ⟨trimmed, plain, option⟩

theorem KV.keyValid_of_mem {keys : List Text} {k : Text}
    (all : ∀ k ∈ keys, Text.trimSpace k = k ∧ ('=' ∉ k ∧ '\n' ∉ k) ∧ k.head? ≠ some '#') (member : k ∈ keys) (value : Text) :
    KV.KeyValid ⟨k, value⟩ := by
  obtain ⟨trimmed, plain, option⟩ := all k member
  exact ⟨trimmed, plain, option⟩

/-- The line of an option, without its end. -/
def optionLine (kv : KV) : Text := kv.key ++ ' ' :: '=' :: ' ' :: kv.value

/-- Whatever the value is, the line of an option is read as one. -/
theorem Parser.line_optionLine (valid : kv.KeyValid) :
    p.line (Text.trimSpace (optionLine kv)) = { p with opts := p.opts ++ [⟨kv.key, Text.trimSpace kv.value⟩] } := by
  have shape : optionLine kv = (kv.key ++ [' ']) ++ '=' :: ' ' :: kv.value := by simp [optionLine]
  have fresh : '=' ∉ (kv.key ++ [' ']).dropWhile Text.isSpace := by
    intro member
    rcases List.mem_append.mp ((List.dropWhile_sublist _).subset member) with inKey | inSpace
    · exact valid.plain.1 inKey
    · exact absurd inSpace (by decide)
  have option : ((kv.key ++ [' ']).dropWhile Text.isSpace ++ '=' :: Text.trimRight (' ' :: kv.value)).head? ≠
      some '#' := by
    have head := (Text.Trimmed.of_trimSpace_eq valid.trimmed).head
    have option := valid.option
    cases shape : kv.key with
    | nil => simp [show Text.isSpace ' ' = true from rfl]
    | cons c key =>
      rw [shape] at head option
      have solid : Text.isSpace c = false := head c rfl
      rw [List.cons_append, List.dropWhile_cons_of_neg (by simp [solid])]
      exact option
  rw [shape, Text.trimSpace_append_cons (by decide), Parser.line_option fresh option, Text.trimSpace_dropWhile,
    Text.trimSpace_trimRight, Text.trimSpace_cons_space, Text.trimSpace_concat_space, valid.trimmed]

theorem Parser.read_options {opts : List KV} (valid : ∀ kv ∈ opts, kv.Valid) :
    p.read (opts.map optionLine) = { p with opts := p.opts ++ opts } := by
  induction opts generalizing p with
  | nil => simp [Parser.read]
  | cons kv opts ih =>
    rw [List.forall_mem_cons] at valid
    rw [List.map_cons, Parser.read_cons, Parser.line_optionLine valid.1.keyValid, valid.1.value_trimmed, ih valid.2]
    simp

def breakToSpace (c : Char) : Char := if c = '\n' ∨ c = '\r' then ' ' else c

/-- What becomes of a name in the file. -/
def cleanName (name : Text) : Text := Text.trimSpace (name.map breakToSpace)

theorem safeName_eq (name : Text) : safeName name = name.map breakToSpace := by
  rw [safeName, List.map_map]
  refine List.map_congr_left fun c _ => ?_
  by_cases newline : c = '\n'
  · subst newline
    rfl
  · simp [breakToSpace, newline]

def nameLine (name : Text) : Text := nameMark ++ ' ' :: safeName name

theorem Parser.line_nameLine (name : Text) :
    p.line (Text.trimSpace (nameLine name)) = { p with nextName := cleanName name } := by
  obtain ⟨start, mark, solid⟩ : ∃ start, nameMark = start ++ [':'] ∧ start.dropWhile Text.isSpace = start :=
    ⟨"# Name".toList, by decide +kernel, by decide +kernel⟩
  have trimmed : Text.trimSpace (nameLine name) = nameMark ++ Text.trimRight (' ' :: safeName name) := by
    rw [nameLine, mark, List.append_assoc, List.singleton_append, Text.trimSpace_append_cons (by decide), solid,
      List.append_assoc, List.singleton_append]
  have comment : (nameMark ++ Text.trimRight (' ' :: safeName name)).head? = some '#' := by
    rw [List.head?_append_of_ne_nil _ (by decide)]
    rfl
  have found : Text.cutPrefix nameMark (nameMark ++ Text.trimRight (' ' :: safeName name)) =
      some (Text.trimRight (' ' :: safeName name)) := Text.cutPrefix_eq_some_iff.mpr rfl
  have some : nameMark ++ Text.trimRight (' ' :: safeName name) ≠ [] := by
    intro empty
    rw [empty] at comment
    cases comment
  rw [trimmed, Parser.line, if_neg some, if_pos comment, found]
  dsimp only
  rw [Text.trimSpace_trimRight, Text.trimSpace_cons_space, safeName_eq, cleanName]

/-- The lines of a peer. -/
def peerLines (peer : ConfPeer) : List Text :=
  [] :: ((if peer.name ≠ [] then [nameLine peer.name] else []) ++ peerHeader :: peer.opts.map optionLine)

/-- The lines of a file. -/
def confLines (cf : ConfFile) : List Text :=
  interfaceHeader :: (cf.interfaceOpts.map optionLine ++ cf.peers.flatMap peerLines)

/-- The name of a peer in the file, when the lines before it leave a name pending. -/
def nameAfter (pending name : Text) : Text := if name = [] then pending else cleanName name

theorem Parser.read_name (name : Text) :
    p.read (if name ≠ [] then [nameLine name] else []) = { p with nextName := nameAfter p.nextName name } := by
  by_cases empty : name = []
  · rw [nameAfter, if_pos empty, if_neg (not_not.mpr empty)]
    rfl
  · rw [nameAfter, if_neg empty, if_pos empty]
    exact Parser.line_nameLine name

/-- A peer ends the section before it and begins its own. -/
theorem Parser.read_header (name : Text) (ls : List Text) :
    p.read ([] :: ((if name ≠ [] then [nameLine name] else []) ++ peerHeader :: ls)) =
      Parser.read { p.flush with sec := .peer, name := nameAfter p.nextName name, nextName := [], opts := [] } ls := by
  have header : ∀ p : Parser, p.line (Text.trimSpace peerHeader) =
      { p.flush with sec := .peer, name := p.nextName, nextName := [] } := fun p => rfl
  have flushed : ∀ (p : Parser) (next : Text), ({ p with nextName := next } : Parser).flush =
      { p.flush with nextName := next } ∧ p.flush.opts = [] := by
    intro p next
    unfold Parser.flush
    cases p.sec <;> exact ⟨rfl, rfl⟩
  rw [Parser.read_cons, show p.line (Text.trimSpace []) = p from rfl, Parser.read_append, Parser.read_name name,
    Parser.read_cons, header, (flushed p _).1]
  simp only [(flushed p []).2]

theorem Parser.read_peer (peer : ConfPeer) (valid : ∀ kv ∈ peer.opts, kv.Valid) :
    p.read (peerLines peer) =
      { p.flush with sec := .peer, name := nameAfter p.nextName peer.name, nextName := [], opts := peer.opts } := by
  rw [peerLines, Parser.read_header, Parser.read_options valid, List.nil_append]

/-- The peers of a file, read after a name that is still pending: only the
first can take it. -/
def peersAfter (pending : Text) : List ConfPeer → List ConfPeer
  | [] => []
  | peer :: peers => ⟨nameAfter pending peer.name, peer.opts⟩ :: peersAfter [] peers

theorem Parser.read_peers {peers : List ConfPeer} (valid : ∀ peer ∈ peers, ∀ kv ∈ peer.opts, kv.Valid) :
    (p.read (peers.flatMap peerLines)).flush.cf =
      { p.flush.cf with peers := p.flush.cf.peers ++ peersAfter p.nextName peers } := by
  induction peers generalizing p with
  | nil => simp [Parser.read, peersAfter]
  | cons peer peers ih =>
    rw [List.forall_mem_cons] at valid
    rw [List.flatMap_cons, Parser.read_append, Parser.read_peer peer valid.1, ih valid.2]
    simp [Parser.flush, peersAfter]

theorem peersAfter_nil (peers : List ConfPeer) :
    peersAfter [] peers = peers.map fun peer => ⟨cleanName peer.name, peer.opts⟩ := by
  induction peers with
  | nil => rfl
  | cons peer peers ih =>
    have name : nameAfter [] peer.name = cleanName peer.name := by
      unfold nameAfter
      split
      · rename_i empty
        rw [empty]
        rfl
      · rfl
    rw [peersAfter, ih, name, List.map_cons]

theorem read_confLines {cf : ConfFile} (valid : cf.Valid) :
    (Parser.read {} (confLines cf)).flush.cf = cf.mapNames cleanName := by
  have header : ({} : Parser).line (Text.trimSpace interfaceHeader) = { sec := .interface } := rfl
  rw [confLines, Parser.read_cons, header, Parser.read_append, Parser.read_options valid.interfaceOpts,
    Parser.read_peers valid.peers, peersAfter_nil]
  simp [Parser.flush, ConfFile.mapNames]

end

theorem unlines_flatMap {α : Type} (f : α → List Text) (xs : List α) :
    Text.unlines (xs.flatMap f) = xs.flatMap fun x => Text.unlines (f x) := by
  induction xs with
  | nil => rfl
  | cons x xs ih => rw [List.flatMap_cons, List.flatMap_cons, Text.unlines_append, ih]

theorem unlines_options (opts : List KV) : Text.unlines (opts.map optionLine) = opts.flatMap renderKV := by
  induction opts with
  | nil => rfl
  | cons kv opts ih =>
    rw [List.map_cons, Text.unlines_cons, List.flatMap_cons, ih]
    simp [optionLine, renderKV]

theorem unlines_peerLines (peer : ConfPeer) : Text.unlines (peerLines peer) = renderPeer peer := by
  rw [peerLines, renderPeer, Text.unlines_cons, Text.unlines_append, Text.unlines_cons, unlines_options]
  split
  · simp [Text.unlines, nameLine]
  · simp [Text.unlines]

theorem render_eq_unlines (cf : ConfFile) : cf.render = Text.unlines (confLines cf) := by
  rw [confLines, ConfFile.render, Text.unlines_cons, Text.unlines_append, unlines_options, unlines_flatMap]
  simp only [unlines_peerLines]

theorem newline_not_mem_safeName (name : Text) : '\n' ∉ safeName name := by
  intro member
  rw [safeName_eq] at member
  obtain ⟨c, _, same⟩ := List.mem_map.mp member
  unfold breakToSpace at same
  split at same
  · cases same
  · rename_i other
    exact other (.inl same)

theorem optionLine_single {kv : KV} (valid : kv.Valid) : '\n' ∉ optionLine kv := by
  simp [optionLine, valid.key_plain.2, valid.value_plain]

theorem confLines_single {cf : ConfFile} (valid : cf.Valid) : ∀ l ∈ confLines cf, '\n' ∉ l := by
  have options : ∀ opts : List KV, (∀ kv ∈ opts, kv.Valid) → ∀ l ∈ opts.map optionLine, '\n' ∉ l := by
    intro opts valid l member
    obtain ⟨kv, listed, rfl⟩ := List.mem_map.mp member
    exact optionLine_single (valid kv listed)
  have names : ∀ name l, l ∈ (if name ≠ [] then [nameLine name] else []) → '\n' ∉ l := by
    intro name l member
    split at member
    · obtain rfl := List.mem_singleton.mp member
      have mark : '\n' ∉ nameMark := by decide
      simp [nameLine, mark, newline_not_mem_safeName]
    · cases member
  intro l member
  rcases List.mem_cons.mp member with rfl | member
  · decide
  rcases List.mem_append.mp member with own | member
  · exact options _ valid.interfaceOpts l own
  · obtain ⟨peer, listed, member⟩ := List.mem_flatMap.mp member
    rcases List.mem_cons.mp member with rfl | member
    · simp
    rcases List.mem_append.mp member with name | member
    · exact names peer.name l name
    rcases List.mem_cons.mp member with rfl | own
    · decide
    · exact options _ (valid.peers peer listed) l own

theorem parseConf_render {cf : ConfFile} (valid : cf.Valid) : parseConf cf.render = cf.mapNames cleanName := by
  have blank : ∀ p : Parser, p.read [[]] = p := fun p => rfl
  rw [parseConf, render_eq_unlines, Text.lines_unlines (confLines_single valid), Parser.read_append, blank,
    read_confLines valid]

/-- A name that `ParseConf` gives. -/
structure ReadName (name : Text) : Prop where
  trimmed : Text.trimSpace name = name
  single : '\n' ∉ name

/-- What `ParseConf` holds at any time. -/
structure Parser.Valid (p : Parser) : Prop where
  cf : p.cf.Valid
  opts : ∀ kv ∈ p.opts, kv.Valid
  peerNames : ∀ peer ∈ p.cf.peers, ReadName peer.name
  name : ReadName p.name
  nextName : ReadName p.nextName

section
variable {p : Parser}

theorem readName_nil : ReadName [] := ⟨rfl, by simp⟩

theorem readName_trimSpace {t : Text} (single : '\n' ∉ t) : ReadName (Text.trimSpace t) :=
  ⟨(Text.trimmed_trimSpace t).trimSpace_eq, fun member => single (Text.mem_of_mem_trimSpace member)⟩

theorem Parser.Valid.flush (valid : p.Valid) : p.flush.Valid := by
  unfold Parser.flush
  split
  · exact ⟨valid.cf, by simp, valid.peerNames, valid.name, valid.nextName⟩
  · refine ⟨⟨fun kv member => ?_, valid.cf.peers⟩, by simp, valid.peerNames, valid.name, valid.nextName⟩
    rcases List.mem_append.mp member with old | new
    · exact valid.cf.interfaceOpts kv old
    · exact valid.opts kv new
  · refine ⟨⟨valid.cf.interfaceOpts, fun peer member => ?_⟩, by simp, fun peer member => ?_, valid.name, valid.nextName⟩
    · rcases List.mem_append.mp member with old | new
      · exact valid.cf.peers peer old
      · obtain rfl := List.mem_singleton.mp new
        exact valid.opts
    · rcases List.mem_append.mp member with old | new
      · exact valid.peerNames peer old
      · obtain rfl := List.mem_singleton.mp new
        exact valid.name

/-- An option that is read from a line can be written as one. -/
theorem kv_valid {line key value : Text} (trimmed : Text.Trimmed line) (single : '\n' ∉ line)
    (option : line.head? ≠ some '#') (parts : Text.cut '=' line = some (key, value)) :
    KV.Valid ⟨Text.trimSpace key, Text.trimSpace value⟩ := by
  obtain ⟨rfl, fresh⟩ := Text.cut_eq_some_iff.mp parts
  simp only [List.mem_append, List.mem_cons, not_or] at single
  refine ⟨(Text.trimmed_trimSpace key).trimSpace_eq,
    ⟨fun member => fresh (Text.mem_of_mem_trimSpace member), fun member => single.1 (Text.mem_of_mem_trimSpace member)⟩,
    ?_, (Text.trimmed_trimSpace value).trimSpace_eq, fun member => single.2.2 (Text.mem_of_mem_trimSpace member)⟩
  cases key with
  | nil => simp [Text.trimSpace]
  | cons c key =>
    -- the line is trimmed, so trimming the key leaves its first character
    have solid : Text.isSpace c = false := trimmed.head c rfl
    have kept : Text.trimSpace (c :: key) = c :: Text.trimRight key := Text.trimSpace_append_cons solid [] key
    rw [kept]
    exact option

theorem Parser.Valid.line {line : Text} (valid : p.Valid) (trimmed : Text.Trimmed line) (single : '\n' ∉ line) :
    (p.line line).Valid := by
  unfold Parser.line
  split
  · exact valid
  split
  · split
    · rename_i n found
      obtain rfl := Text.cutPrefix_eq_some_iff.mp found
      have rest : '\n' ∉ n := fun member => single (List.mem_append_right _ member)
      exact ⟨valid.cf, valid.opts, valid.peerNames, valid.name, readName_trimSpace rest⟩
    · exact valid
  rename_i option
  have flushed := valid.flush
  split
  · exact ⟨flushed.cf, flushed.opts, flushed.peerNames, readName_nil, flushed.nextName⟩
  split
  · exact ⟨flushed.cf, flushed.opts, flushed.peerNames, valid.nextName, readName_nil⟩
  split
  · exact valid
  · rename_i key value parts
    refine ⟨valid.cf, fun kv member => ?_, valid.peerNames, valid.name, valid.nextName⟩
    rcases List.mem_append.mp member with old | new
    · exact valid.opts kv old
    · obtain rfl := List.mem_singleton.mp new
      exact kv_valid trimmed single option parts

theorem Parser.Valid.read {ls : List Text} (valid : p.Valid) (single : ∀ l ∈ ls, '\n' ∉ l) : (p.read ls).Valid := by
  induction ls generalizing p with
  | nil => exact valid
  | cons l ls ih =>
    rw [List.forall_mem_cons] at single
    exact ih (valid.line (Text.trimmed_trimSpace l) fun member => single.1 (Text.mem_of_mem_trimSpace member)) single.2

theorem parser_valid (content : Text) : (Parser.read {} (Text.lines content)).flush.Valid := by
  have start : ({} : Parser).Valid := ⟨⟨by simp, by simp⟩, by simp, by simp, readName_nil, readName_nil⟩
  exact (start.read fun l member => Text.not_mem_of_mem_splitOn member).flush

theorem parseConf_valid (content : Text) : (parseConf content).Valid := (parser_valid content).cf

end

def crToSpace (c : Char) : Char := if c = '\r' then ' ' else c

theorem isSpace_crToSpace (c : Char) : Text.isSpace (crToSpace c) = Text.isSpace c := by
  unfold crToSpace
  split
  · rename_i cr
    rw [cr]
    rfl
  · rfl

/-- Writing a name that was read changes its carriage returns only. -/
theorem cleanName_of_read {name : Text} (read : ReadName name) : cleanName name = name.map crToSpace := by
  have same : name.map breakToSpace = name.map crToSpace := by
    refine List.map_congr_left fun c member => ?_
    have other : c ≠ '\n' := fun newline => read.single (newline ▸ member)
    simp [breakToSpace, crToSpace, other]
  have trimmed := Text.Trimmed.of_trimSpace_eq read.trimmed
  have both : Text.Trimmed (name.map crToSpace) := by
    constructor
    · intro c head
      obtain ⟨d, first, rfl⟩ := Option.map_eq_some_iff.mp (List.head?_map.symm.trans head)
      rw [isSpace_crToSpace]
      exact trimmed.head d first
    · intro c last
      obtain ⟨d, final, rfl⟩ := Option.map_eq_some_iff.mp (List.getLast?_map.symm.trans last)
      rw [isSpace_crToSpace]
      exact trimmed.last d final
  rw [cleanName, same, both.trimSpace_eq]

/-- What is written is read back, with names that cannot add a line: their
line breaks are spaces, and they are trimmed. What is read can be written, and
reading it back changes nothing but carriage returns in names. -/
theorem conf_round_trip :
    (∀ cf : ConfFile, cf.Valid → parseConf cf.render = cf.mapNames cleanName) ∧
      (∀ content, (parseConf content).Valid) ∧
      ∀ content, parseConf (parseConf content).render = (parseConf content).mapNames (List.map crToSpace) := by
  refine ⟨fun cf => parseConf_render, parseConf_valid, fun content => ?_⟩
  rw [parseConf_render (parseConf_valid content), ConfFile.mapNames, ConfFile.mapNames]
  have names : (parseConf content).peers.map (fun p => (⟨cleanName p.name, p.opts⟩ : ConfPeer)) =
      (parseConf content).peers.map fun p => ⟨p.name.map crToSpace, p.opts⟩ :=
    List.map_congr_left fun peer member => by rw [cleanName_of_read ((parser_valid content).peerNames peer member)]
  rw [names]

/-- A name with a section and an option of its own. -/
theorem conf_round_trip_sample :
    parseConf (ConfFile.render ⟨[⟨"Address".toList, "10.10.0.1/24".toList⟩],
        [⟨"evil\n[Interface]\nPostUp = x\r".toList, [⟨"PublicKey".toList, "k=".toList⟩]⟩]⟩) =
      ⟨[⟨"Address".toList, "10.10.0.1/24".toList⟩],
        [⟨"evil [Interface] PostUp = x".toList, [⟨"PublicKey".toList, "k=".toList⟩]⟩]⟩ := by
  refine (conf_round_trip.1 _ ⟨?_, ?_⟩).trans (by decide +kernel)
  all_goals
    simp only [List.forall_mem_cons, List.not_mem_nil, false_implies, implies_true, and_true]
    exact ⟨by decide +kernel, ⟨by decide, by decide⟩, by decide, by decide +kernel, by decide⟩

end Protean.WgFamily
