import Protean.WgFamily.Create

namespace Protean.WgFamily

/-- The calls that give an instance a peer with its settings. -/
inductive Change
  | add (drawn : Option (List UInt8 × List UInt8))
  | addConfigured (publicKey : Text)
  | update (id : Text)
  deriving DecidableEq, Repr

/-- Gives the key of the peer. -/
def Change.run (env : Env) (spec : PeerSpec) : Change → Proc Host Text
  | .add drawn => do
    let (_, pub) ← addPeer env drawn spec
    return pub
  | .addConfigured publicKey => do
    addConfiguredPeer env publicKey spec
    return publicKey
  | .update id => do
    updatePeer env id spec
    return id

def Change.key : Change → Option Text
  | .add drawn => (generateKeyPair drawn).map Prod.snd
  | .addConfigured publicKey => some publicKey
  | .update id => some id

/-- A new peer must not be there, one that is changed must. -/
def Change.check (conf : ConfFile) (key : Text) : Change → Bool
  | .update _ => (conf.findPeer key).isSome
  | _ => (conf.findPeer key).isNone

def Change.edit (conf : ConfFile) (key : Text) (spec : PeerSpec) : Change → ConfFile
  | .update _ => conf.replacePeer key ⟨spec.name, peerOpts key spec⟩
  | _ => conf.addPeer ⟨spec.name, peerOpts key spec⟩

/-- The file and the interface have the peer with these settings. -/
structure Holds (key : Text) (spec : PeerSpec) (h : Host) : Prop where
  file : ∃ p, (parseConf h.file).findPeer key = some p ∧ p.allowedIPs = spec.allowedIPs ∧
    getOpt p.opts "PersistentKeepalive".toList = if 0 < spec.keepalive then some (Text.itoa spec.keepalive) else none
  live : h.live.get key = some ⟨spec.allowedIPs, max spec.keepalive 0⟩

/-- Either nothing is changed or everything is done. -/
def Atomic (spec : PeerSpec) (before : Host) : Option Text × Host → Prop
  | (none, after) => parseConf after.file = parseConf before.file ∧ after.live = before.live
  | (some key, after) => Holds key spec after

section
variable (env : Env) (spec : PeerSpec) (change : Change) (h : Host)

theorem exec_run :
    (change.run env spec).exec h =
      match change.key with
      | none => (none, h)
      | some key =>
        if admitted env spec (change.check (parseConf h.file) key) then
          let result := (writeConfAndApply env (change.edit (parseConf h.file) key spec) key spec.allowedIPs
            spec.keepalive).exec h
          (result.1.map fun _ => key, result.2)
        else (none, h) := by
  have answer : ∀ (key : Text) (m : Proc Host Unit), (do m; return key : Proc Host Text).exec h =
      ((m.exec h).1.map fun _ => key, (m.exec h).2) := by
    intro key m
    rw [Proc.exec_bind]
    rcases m.exec h with ⟨_ | _, h'⟩ <;> rfl
  have passed : ∀ (c : Bool) (result : Option Unit × Host) (key : Text),
      ((if c then result else (none, h)).1.map fun _ => key, (if c then result else (none, h)).2) =
        if c then (result.1.map fun _ => key, result.2) else (none, h) := by
    intro c result key
    cases c <;> rfl
  cases change with
  | update id =>
    rw [Change.run, answer, exec_updatePeer, passed]
    rfl
  | addConfigured key =>
    rw [Change.run, answer, exec_addConfiguredPeer, passed]
    rfl
  | add drawn =>
    have second : ∀ m : Proc Host (Text × Text), (do let (_, pub) ← m; return pub : Proc Host Text).exec h =
        ((m.exec h).1.map Prod.snd, (m.exec h).2) := by
      intro m
      rw [Proc.exec_bind]
      rcases m.exec h with ⟨_ | _, h'⟩ <;> rfl
    rw [Change.run, second, exec_addPeer, Change.key]
    cases generateKeyPair drawn with
    | none => rfl
    | some keys =>
      dsimp only [Option.map_some]
      rw [Option.map_map, exec_addConfiguredPeer]
      exact passed _ _ _

end

section
variable {key : Text} {spec : PeerSpec} {change : Change} {content : Text}

/-- The block that a change writes, where it stands in the file. -/
structure Placed (conf after : ConfFile) (key : Text) (block : ConfPeer) (pre post : List ConfPeer) : Prop where
  after : after = ⟨conf.interfaceOpts, pre ++ block :: post⟩
  first : ∀ p ∈ pre, p ∈ conf.peers ∧ p.hasKey key = false
  last : ∀ p ∈ post, p ∈ conf.peers

variable {conf : ConfFile}

theorem addPeer_placed (fresh : (conf.findPeer key).isNone = true) (block : ConfPeer) :
    Placed conf (conf.addPeer block) key block conf.peers [] := by
  have others := List.find?_eq_none.mp (Option.isNone_iff_eq_none.mp fresh)
  exact ⟨rfl, fun p member => ⟨member, Bool.eq_false_iff.mpr (others p member)⟩, by simp⟩

variable {pre post : List ConfPeer}

theorem replacePeer_placed {old : ConfPeer} (peers : conf.peers = pre ++ old :: post)
    (others : ∀ p ∈ pre, p.hasKey key = false) (own : old.hasKey key = true) (block : ConfPeer) :
    Placed conf (conf.replacePeer key block) key block pre post := by
  refine ⟨?_, fun p member => ⟨?_, others p member⟩, fun p member => ?_⟩
  · rw [ConfFile.replacePeer, peers, replaceFirst_append others own]
  · rw [peers]
    exact List.mem_append_left _ member
  · rw [peers]
    exact List.mem_append_right _ (List.mem_cons_of_mem _ member)

theorem Change.placed (spec : PeerSpec) (checked : change.check conf key = true) :
    ∃ pre post, Placed conf (change.edit conf key spec) key ⟨spec.name, peerOpts key spec⟩ pre post := by
  cases change with
  | add drawn | addConfigured publicKey => exact ⟨_, _, addPeer_placed checked _⟩
  | update id =>
    obtain ⟨old, found⟩ := Option.isSome_iff_exists.mp checked
    obtain ⟨pre, post, peers, others, own⟩ := findPeer_split found
    exact ⟨pre, post, replacePeer_placed peers others own _⟩

variable {after : ConfFile} {block : ConfPeer}

theorem Placed.parse (placed : Placed conf after key block pre post) (valid : conf.Valid) : parseConf after.render =
      ⟨conf.interfaceOpts ++ block.parsed.flush.cf.interfaceOpts,
        pre.map (fun p => ⟨cleanName p.name, p.opts⟩) ++ (block.parsed.flush.cf.peers ++
          peersAfter block.parsed.nextName post)⟩ := by
  rw [placed.after]
  exact parseConf_render_block block valid.interfaceOpts (fun p member => valid.peers p (placed.first p member).1)
    fun p member => valid.peers p (placed.last p member)

theorem blockOpts_peerOpts (plain : PlainValue key) (ips : validateAllowedIPs spec.allowedIPs = true) :
    blockOpts (interfaceLines (peerOpts key spec)) =
      peerOpts key { spec with extra := blockOpts (interfaceLines spec.extra) } := by
  have split : ∀ extra, peerOpts key { spec with extra := extra } = peerOpts key { spec with extra := [] } ++ extra := by
    intro extra
    unfold peerOpts
    rw [List.append_nil]
  have own : ∀ kv ∈ peerOpts key { spec with extra := [] }, kv.Valid := peerOpts_valid plain ips (by simp)
  rw [show peerOpts key spec = _ from split spec.extra, interfaceLines_append, blockOpts_append_of_valid own, ← split]

/-- A key is found in a file only if it is one that a file can hold. -/
theorem plainValue_of_findPeer {p : ConfPeer} (found : (parseConf content).findPeer key = some p) : PlainValue key := by
  have own : p.hasKey key = true := List.find?_some found
  obtain ⟨kv, member, rfl⟩ := mem_of_getOpt (of_decide_eq_true own)
  have valid := (parseConf_valid content).peers p (List.mem_of_find?_eq_some found) kv member
  exact ⟨valid.value_trimmed, valid.value_plain⟩

/-- The block is found in the file with what is read back of its options. -/
theorem Placed.findPeer_block (placed : Placed conf after key block pre post) (valid : conf.Valid)
    (own : getOpt (blockOpts (interfaceLines block.opts)) "PublicKey".toList = some key) :
    (parseConf after.render).findPeer key = some ⟨nameAfter [] block.name, blockOpts (interfaceLines block.opts)⟩ := by
  obtain ⟨more, parsed⟩ := ConfPeer.peers_parsed block
  have others : ∀ p ∈ pre.map (fun p => (⟨cleanName p.name, p.opts⟩ : ConfPeer)), ¬ p.hasKey key = true := by
    intro p member
    obtain ⟨old, listed, rfl⟩ := List.mem_map.mp member
    exact Bool.eq_false_iff.mp (placed.first old listed).2
  have found : ConfPeer.hasKey key ⟨nameAfter [] block.name, blockOpts (interfaceLines block.opts)⟩ = true :=
    decide_eq_true own
  rw [placed.parse valid, ConfFile.findPeer, List.find?_append, List.find?_eq_none.mpr others, Option.none_or, parsed,
    List.cons_append, List.find?_cons_of_pos found]

theorem Placed.findPeer {name : Text} (placed : Placed (parseConf content) after key ⟨name, peerOpts key spec⟩ pre post)
    (plain : PlainValue key) (ips : validateAllowedIPs spec.allowedIPs = true) : (parseConf after.render).findPeer key =
      some ⟨nameAfter [] name, peerOpts key { spec with extra := blockOpts (interfaceLines spec.extra) }⟩ := by
  have options := blockOpts_peerOpts plain ips
  rw [placed.findPeer_block (parseConf_valid content) (options ▸ getOpt_publicKey _ _), options]

/-- What an update puts in force, and the block that it writes. -/
theorem updatePeer_done {env : Env} {h h' : Host} (done : (updatePeer env key spec).exec h = (some (), h')) :
    h'.live.get key = some ⟨spec.allowedIPs, max spec.keepalive 0⟩ ∧ ∃ block, (parseConf h'.file).findPeer key = some block ∧
      block = ⟨nameAfter [] spec.name, peerOpts key { spec with extra := blockOpts (interfaceLines spec.extra) }⟩ ∧
      block.allowedIPs = spec.allowedIPs := by
  rw [exec_updatePeer] at done
  split at done
  · rename_i passed
    simp only [admitted, Bool.and_eq_true] at passed
    obtain ⟨⟨⟨-, ips⟩, -⟩, there⟩ := passed
    obtain ⟨old, found⟩ := Option.isSome_iff_exists.mp there
    obtain ⟨pre, post, peers, others, own⟩ := findPeer_split found
    have placed := replacePeer_placed peers others own ⟨spec.name, peerOpts key spec⟩
    rw [writeConfAndApply_done env done]
    exact ⟨KeyTable.get_upsert_self _ _ _, _, placed.findPeer (plainValue_of_findPeer found) ips, rfl, allowedIPs_peerOpts _ ips⟩
  · cases done

/-- The file has the peer as it was asked for, exactly if its key can stand in
a file and no further option comes in the place of a keepalive that is off. -/
theorem Placed.holds_iff {name : Text} (placed : Placed (parseConf content) after key ⟨name, peerOpts key spec⟩ pre post)
    (ips : validateAllowedIPs spec.allowedIPs = true) :
    (∃ p, (parseConf after.render).findPeer key = some p ∧ p.allowedIPs = spec.allowedIPs ∧
        getOpt p.opts "PersistentKeepalive".toList =
          if 0 < spec.keepalive then some (Text.itoa spec.keepalive) else none) ↔
      PlainValue key ∧
        (0 < spec.keepalive ∨ getOpt (blockOpts (interfaceLines spec.extra)) "PersistentKeepalive".toList = none) := by
  constructor
  · rintro ⟨p, found, _, keepalive⟩
    have plain := plainValue_of_findPeer found
    refine ⟨plain, ?_⟩
    rw [placed.findPeer plain ips, Option.some.injEq] at found
    subst found
    rw [getOpt_keepalive] at keepalive
    by_cases positive : 0 < spec.keepalive
    · exact .inl positive
    · rw [if_neg positive, if_neg positive] at keepalive
      exact .inr keepalive
  · rintro ⟨plain, none⟩
    refine ⟨_, placed.findPeer plain ips, allowedIPs_peerOpts _ ips, ?_⟩
    rw [getOpt_keepalive]
    rcases none with positive | none
    · rw [if_pos positive, if_pos positive]
    · rw [none]

/-- The block that an update writes is read as the one that is there. -/
structure Idle (id : Text) (spec : PeerSpec) (conf : ConfFile) (pre post : List ConfPeer) (old : ConfPeer) : Prop where
  peers : conf.peers = pre ++ old :: post
  first : ∀ p ∈ pre, p.hasKey id = false
  own : old.hasKey id = true
  block : (ConfPeer.parsed ⟨spec.name, peerOpts id spec⟩).flush.cf = ⟨[], [old]⟩
  breaks : ∀ p ∈ pre ++ post, '\r' ∉ p.name
  pending : ∀ p ∈ post.head?, p.name = [] → (ConfPeer.parsed ⟨spec.name, peerOpts id spec⟩).nextName = []

def Change.Idle (spec : PeerSpec) (conf : ConfFile) : Change → Prop
  | .update id => ∃ pre post old, WgFamily.Idle id spec conf pre post old
  | _ => False

/-- With one more block there is one more peer. -/
theorem add_changes (block : ConfPeer) (fresh : ((parseConf content).findPeer key).isNone = true) :
    parseConf ((parseConf content).addPeer block).render ≠ parseConf content := by
  intro same
  obtain ⟨more, parsed⟩ := block.peers_parsed
  have length := congrArg (fun conf => conf.peers.length) 
    (((addPeer_placed fresh block).parse (parseConf_valid content)).symm.trans same)
  dsimp only at length
  rw [parsed, List.length_append, List.length_map, List.length_append, List.length_cons] at length
  omega

theorem Placed.parse_eq_iff {old : ConfPeer} (placed : Placed (parseConf content) after key block pre post)
    (peers : (parseConf content).peers = pre ++ old :: post) : parseConf after.render = parseConf content ↔
      block.parsed.flush.cf = ⟨[], [old]⟩ ∧ (∀ p ∈ pre ++ post, '\r' ∉ p.name) ∧
        ∀ p ∈ post.head?, p.name = [] → block.parsed.nextName = [] := by
  have names : ∀ p ∈ (parseConf content).peers, ReadName p.name := (parser_valid content).peerNames
  have first : ∀ p ∈ pre, ReadName p.name := fun p member => names p (placed.first p member).1
  have last : ∀ p ∈ post, ReadName p.name := fun p member => names p (placed.last p member)
  rw [placed.parse (parseConf_valid content)]
  generalize block.parsed = parsed
  constructor
  · intro same
    have options : (parseConf content).interfaceOpts ++ parsed.flush.cf.interfaceOpts =
        (parseConf content).interfaceOpts :=
      congrArg ConfFile.interfaceOpts same
    have all := congrArg ConfFile.peers same
    dsimp only at all
    rw [peers] at all
    obtain ⟨before, rest⟩ := List.append_inj all (by rw [List.length_map])
    obtain ⟨own, later⟩ := List.append_inj' (rest.trans List.singleton_append.symm) (length_peersAfter _ _)
    obtain ⟨pending, breaks⟩ := (peersAfter_eq_self_iff last).mp later
    refine ⟨?_, List.forall_mem_append.mpr ⟨(map_cleanName_eq_iff first).mp before, breaks⟩, pending⟩
    rw [← own, ← List.append_right_eq_self.mp options]
  · rintro ⟨own, breaks, pending⟩
    rw [List.forall_mem_append] at breaks
    rw [own, (map_cleanName_eq_iff first).mpr breaks.1, (peersAfter_eq_self_iff last).mpr ⟨pending, breaks.2⟩,
      List.append_nil, List.singleton_append, ← peers]

theorem edit_unchanged_iff (spec : PeerSpec) (keyed : change.key = some key)
    (checked : change.check (parseConf content) key = true) :
    parseConf (change.edit (parseConf content) key spec).render = parseConf content ↔
      change.Idle spec (parseConf content) := by
  cases change with
  | add drawn | addConfigured publicKey => exact iff_of_false (add_changes _ checked) id
  | update id =>
    obtain rfl := Option.some.inj keyed
    constructor
    · intro same
      obtain ⟨old, found⟩ := Option.isSome_iff_exists.mp checked
      obtain ⟨pre, post, peers, others, own⟩ := findPeer_split found
      obtain ⟨block, breaks, pending⟩ := ((replacePeer_placed peers others own _).parse_eq_iff peers).mp same
      exact ⟨pre, post, old, peers, others, own, block, breaks, pending⟩
    · rintro ⟨pre, post, old, idle⟩
      exact ((replacePeer_placed idle.peers idle.first idle.own _).parse_eq_iff idle.peers).mpr
        ⟨idle.block, idle.breaks, idle.pending⟩

/-- What a change depends on once the file is written: that it can be taken
back, or else that the file tells what was asked for. -/
structure Safe (env : Env) (spec : PeerSpec) (change : Change) (h : Host) (key : Text) : Prop where
  undone : env.apply = false → env.readPrev = true ∧ h.file ≠ [] ∨ change.Idle spec (parseConf h.file)
  readable : env.apply = true → PlainValue key ∧
    (0 < spec.keepalive ∨ getOpt (blockOpts (interfaceLines spec.extra)) "PersistentKeepalive".toList = none)

/-- A change is made in both places or in none, exactly if it is safe whenever
the file is written. -/
theorem peer_change_atomic_iff {env : Env} {h : Host} (rolls : env.rollback = true) :
    Atomic spec h ((change.run env spec).exec h) ↔
      ∀ key, change.key = some key → admitted env spec (change.check (parseConf h.file) key) = true →
        env.writeConf = true → Safe env spec change h key := by
  have refused : Atomic spec h (none, h) := ⟨rfl, rfl⟩
  rw [exec_run]
  cases keyed : change.key with
  | none => exact iff_of_true refused fun key some' => by cases some'
  | some key =>
    simp only [Option.some.injEq, forall_eq']
    by_cases passed : admitted env spec (change.check (parseConf h.file) key) = true
    swap
    · rw [if_neg passed]
      exact iff_of_true refused fun other => absurd other passed
    have accepted := passed
    simp only [admitted, Bool.and_eq_true] at accepted
    obtain ⟨⟨⟨-, ips⟩, -⟩, checked⟩ := accepted
    rw [if_pos passed, exec_writeConfAndApply]
    cases write : env.writeConf with
    | false => exact iff_of_true refused fun _ other => by cases other
    | true =>
      cases apply : env.apply with
      | true =>
        obtain ⟨pre, post, placed⟩ := Change.placed spec checked
        have held := placed.holds_iff ips
        constructor
        · intro holds _ _
          exact ⟨fun other => absurd (apply.symm.trans other) (by decide), fun _ => held.mp holds.file⟩
        · intro safe
          exact ⟨held.mpr ((safe passed rfl).readable apply), KeyTable.get_upsert_self _ _ _⟩
      | false =>
        have unchanged := edit_unchanged_iff spec keyed checked
        have undone : Safe env spec change h key ↔
            env.readPrev = true ∧ h.file ≠ [] ∨ change.Idle spec (parseConf h.file) :=
          ⟨fun safe => safe.undone apply,
            fun undo => ⟨fun _ => undo, fun other => absurd (apply.symm.trans other) (by decide)⟩⟩
        simp only [if_true, Bool.false_eq_true, if_false, passed, forall_const, undone]
        by_cases restored : env.readPrev = true ∧ env.rollback = true ∧ h.file ≠ []
        · rw [if_pos restored]
          exact iff_of_true refused (.inl ⟨restored.1, restored.2.2⟩)
        · rw [if_neg restored, ← unchanged]
          have lost : ¬ (env.readPrev = true ∧ h.file ≠ []) := fun both => restored ⟨both.1, rolls, both.2⟩
          exact ⟨fun atomic => .inr atomic.1, fun undo => ⟨undo.resolve_left lost, rfl⟩⟩

end

def atomicHost : Host := ⟨"[Interface]\n".toList, [], 0, KeyTable.empty⟩

def atomicSpec : PeerSpec := ⟨"b".toList, ["10.0.0.2/32".toList], 25, []⟩

/-- A new peer, when `wg set` fails. -/
def atomicSample (readPrev : Bool) : Option Text × Host :=
  ((Change.addConfigured "a2V5".toList).run { apply := false, readPrev := readPrev } atomicSpec).exec atomicHost

theorem peer_change_atomic_iff_sample : Atomic atomicSpec atomicHost (atomicSample true) := by
  refine (peer_change_atomic_iff rfl).mpr fun key _ _ _ => ⟨fun _ => .inl ⟨rfl, by decide⟩, fun applied => ?_⟩
  cases applied

/-- The file cannot be read again before it is written: the new peer stays in
it alone. -/
theorem peer_change_half_done :
    (parseConf atomicHost.file).peers = [] ∧ atomicHost.live.rows = [] ∧ (atomicSample false).1 = none ∧
      (parseConf (atomicSample false).2.file).peers.length = 1 ∧ (atomicSample false).2.live.rows = [] ∧
      ¬ Atomic atomicSpec atomicHost (atomicSample false) := by
  have failed : (atomicSample false).1 = none := by decide +kernel
  have before : (parseConf atomicHost.file).peers = [] := by decide +kernel
  have after : (parseConf (atomicSample false).2.file).peers.length = 1 := by decide +kernel
  refine ⟨before, rfl, failed, after, by decide +kernel, fun atomic => ?_⟩
  rw [show atomicSample false = (none, (atomicSample false).2) from Prod.ext failed rfl] at atomic
  rw [atomic.1, before] at after
  cases after

end Protean.WgFamily
