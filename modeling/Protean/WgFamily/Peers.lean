import Protean.Base64
import Protean.Inet
import Protean.WgFamily.Host

namespace Protean.WgFamily

structure PeerSpec where
  name : Text
  allowedIPs : List Text
  keepalive : Int
  extra : List KV := []
  deriving DecidableEq, Repr

def peerOpts (publicKey : Text) (spec : PeerSpec) : List KV :=
  [⟨"PublicKey".toList, publicKey⟩, ⟨"AllowedIPs".toList, [',', ' '].intercalate spec.allowedIPs⟩] ++
    (if 0 < spec.keepalive then [⟨"PersistentKeepalive".toList, Text.itoa spec.keepalive⟩] else []) ++ spec.extra

/-- The length is counted in bytes. -/
def validateName (name : Text) : Bool :=
  name ≠ [] && (name.map Char.utf8Size).sum ≤ 100 && name.all fun r => !(r.toNat < 0x20 || r.toNat = 0x7f)

def validateAllowedIPs (ips : List Text) : Bool := ips ≠ [] && ips.all fun ip => (Inet.parseCIDR ip).isSome

/-- The two keys that are drawn, in text. -/
def generateKeyPair (drawn : Option (List UInt8 × List UInt8)) : Option (Text × Text) :=
  drawn.map fun keys => (Base64.encodeStd keys.1, Base64.encodeStd keys.2)

section
variable (env : Env)

/-- `wg set`: the peer is there with these settings. Addresses that the kernel
takes from other peers are not part of this model. -/
def applyPeerLive (pubkey : Text) (allowedIPs : List Text) (keepalive : Int) : Proc Host Unit := do
  Proc.guard env.apply
  Proc.modify fun h => { h with live := h.live.upsert pubkey ⟨allowedIPs, max keepalive 0⟩ }

def removePeerLive (pubkey : Text) : Proc Host Unit := do
  Proc.guard env.remove
  Proc.modify fun h => { h with live := h.live.delete pubkey }

/-- Back to what was read before the write, if anything was. -/
def rollback (prev : Text) : Proc Host Unit :=
  Proc.when (prev ≠ []) do
    let _ ← Proc.attempt (writeFile env.rollback prev)

def writeConfAndApply (conf : ConfFile) (pub : Text) (allowedIPs : List Text) (keepalive : Int) : Proc Host Unit := do
  let prev ← writeConf env conf
  match ← Proc.attempt (applyPeerLive env pub allowedIPs keepalive) with
  | some _ => return
  | none =>
    rollback env prev
    Proc.lift none

/-- Gives the private and the public key. -/
def addPeer (drawn : Option (List UInt8 × List UInt8)) (spec : PeerSpec) : Proc Host (Text × Text) := do
  Proc.guard (validateName spec.name)
  Proc.guard (validateAllowedIPs spec.allowedIPs)
  let (priv, pub) ← Proc.lift (generateKeyPair drawn)
  let conf ← readConf env
  Proc.guard (conf.findPeer pub).isNone
  writeConfAndApply env (conf.addPeer ⟨spec.name, peerOpts pub spec⟩) pub spec.allowedIPs spec.keepalive
  return (priv, pub)

def addConfiguredPeer (publicKey : Text) (spec : PeerSpec) : Proc Host Unit := do
  Proc.guard (validateName spec.name)
  Proc.guard (validateAllowedIPs spec.allowedIPs)
  let conf ← readConf env
  Proc.guard (conf.findPeer publicKey).isNone
  writeConfAndApply env (conf.addPeer ⟨spec.name, peerOpts publicKey spec⟩) publicKey spec.allowedIPs spec.keepalive

def updatePeer (id : Text) (spec : PeerSpec) : Proc Host Unit := do
  Proc.guard (validateName spec.name)
  Proc.guard (validateAllowedIPs spec.allowedIPs)
  let conf ← readConf env
  Proc.guard (conf.findPeer id).isSome
  writeConfAndApply env (conf.replacePeer id ⟨spec.name, peerOpts id spec⟩) id spec.allowedIPs spec.keepalive

def removePeer (id : Text) : Proc Host Unit := do
  let conf ← readConf env
  Proc.guard (conf.findPeer id).isSome
  let _ ← writeConf env (conf.removePeer id)
  removePeerLive env id

/-- A peer of `ListPeers`: as it is live, with its name from the file. -/
structure ListedPeer where
  name : Text
  allowedIPs : List Text
  keepalive : Int
  deriving DecidableEq, Repr

/-- The listed peer with the key. -/
def findListed (publicKey : Text) : Proc Host ListedPeer := do
  Proc.guard (env.dump = .up)
  let conf ← readConf env
  let live ← Proc.read fun h => h.live.get publicKey
  return ⟨((conf.findPeer publicKey).map ConfPeer.name).getD [], live.allowedIPs, live.keepalive⟩

/-- The addresses of a block, as a rotation reads them. -/
def ConfPeer.allowedIPs (p : ConfPeer) : List Text :=
  match getOpt p.opts "AllowedIPs".toList with
  | some v => if v ≠ [] then (v.splitOn ',').map Text.trimSpace else []
  | none => []

def ConfPeer.keepalive (p : ConfPeer) : Int := ((getOpt p.opts "PersistentKeepalive".toList).map Text.atoiValue).getD 0

/-- The peer keeps its name, addresses and keepalive, and nothing else. -/
def rotatePeerKey (drawn : Option (List UInt8 × List UInt8)) (oldPubKey : Text) : Proc Host (Text × Text) := do
  let conf ← readConf env
  let old ← Proc.lift (conf.findPeer oldPubKey)
  let (priv, pub) ← Proc.lift (generateKeyPair drawn)
  Proc.guard (conf.findPeer pub).isNone
  let spec : PeerSpec := ⟨old.name, old.allowedIPs, old.keepalive, []⟩
  let prev ← writeConf env ((conf.removePeer oldPubKey).addPeer ⟨old.name, peerOpts pub spec⟩)
  match ← Proc.attempt (removePeerLive env oldPubKey) with
  | none =>
    rollback env prev
    Proc.lift none
  | some _ =>
    match ← Proc.attempt (applyPeerLive env pub spec.allowedIPs spec.keepalive) with
    | none =>
      rollback env prev
      Proc.lift none
    | some _ => return (priv, pub)

@[simp] theorem exec_applyPeerLive (pubkey : Text) (allowedIPs : List Text) (keepalive : Int) (h : Host) :
    (applyPeerLive env pubkey allowedIPs keepalive).exec h =
      if env.apply then (some (), { h with live := h.live.upsert pubkey ⟨allowedIPs, max keepalive 0⟩ })
      else (none, h) := by
  unfold applyPeerLive
  cases env.apply <;> rfl

@[simp] theorem exec_removePeerLive (pubkey : Text) (h : Host) :
    (removePeerLive env pubkey).exec h =
      if env.remove then (some (), { h with live := h.live.delete pubkey }) else (none, h) := by
  unfold removePeerLive
  cases env.remove <;> rfl

@[simp] theorem exec_rollback (prev : Text) (h : Host) :
    (rollback env prev).exec h =
      (some (), if prev ≠ [] ∧ env.rollback = true then { h with file := prev } else h) := by
  unfold rollback Proc.when writeFile
  cases prev <;> cases env.rollback <;> rfl

/-- The file stays as it was written when nothing was read before. -/
theorem exec_writeConfAndApply (conf : ConfFile) (pub : Text) (allowedIPs : List Text) (keepalive : Int) (h : Host) :
    (writeConfAndApply env conf pub allowedIPs keepalive).exec h =
      if env.writeConf then
        if env.apply then
          (some (), { h with file := conf.render, live := h.live.upsert pub ⟨allowedIPs, max keepalive 0⟩ })
        else (none, if env.readPrev = true ∧ env.rollback = true ∧ h.file ≠ [] then h else { h with file := conf.render })
      else (none, h) := by
  unfold writeConfAndApply
  rw [Proc.exec_bind, exec_writeConf]
  cases env.writeConf with
  | false => rfl
  | true =>
    simp only [if_pos]
    rw [Proc.exec_bind, Proc.exec_attempt, exec_applyPeerLive]
    cases env.apply with
    | true => rfl
    | false =>
      simp only [Bool.false_eq_true, if_false]
      rw [Proc.exec_bind, exec_rollback]
      by_cases empty : h.file = []
      · cases env.readPrev <;> simp [empty]
      · cases env.readPrev <;> cases env.rollback <;> simp [empty]

theorem exec_removePeer (id : Text) (h : Host) :
    (removePeer env id).exec h =
      if env.readConf = true ∧ ((parseConf h.file).findPeer id).isSome = true ∧ env.writeConf = true then
        let h' := { h with file := ((parseConf h.file).removePeer id).render }
        if env.remove then (some (), { h' with live := h'.live.delete id }) else (none, h')
      else (none, h) := by
  unfold removePeer
  rw [exec_readConf_bind, Proc.exec_guard_bind]
  cases env.readConf with
  | false => rfl
  | true =>
    cases ((parseConf h.file).findPeer id).isSome with
    | false => rfl
    | true =>
      simp only [if_true, true_and]
      rw [Proc.exec_bind, exec_writeConf]
      cases env.writeConf with
      | false => rfl
      | true =>
        simp only [if_true]
        exact exec_removePeerLive env id _

theorem exec_findListed (publicKey : Text) (h : Host) :
    (findListed env publicKey).exec h =
      (if env.dump = .up ∧ env.readConf = true then
        (h.live.get publicKey).map fun live =>
          ⟨(((parseConf h.file).findPeer publicKey).map ConfPeer.name).getD [], live.allowedIPs, live.keepalive⟩
      else none, h) := by
  unfold findListed
  rw [Proc.exec_guard_bind, exec_readConf_bind, Proc.exec_bind, Proc.exec_read]
  by_cases up : env.dump = .up <;> cases env.readConf <;> cases h.live.get publicKey <;> simp [up]

/-- A change of the peers gets as far as the file. -/
def admitted (spec : PeerSpec) (check : Bool) : Bool :=
  validateName spec.name && validateAllowedIPs spec.allowedIPs && env.readConf && check

theorem exec_admitted (spec : PeerSpec) (check : ConfFile → Bool) (change : ConfFile → Proc Host Unit) (h : Host) :
    Proc.exec (do
      Proc.guard (validateName spec.name)
      Proc.guard (validateAllowedIPs spec.allowedIPs)
      let conf ← readConf env
      Proc.guard (check conf)
      change conf) h =
      if admitted env spec (check (parseConf h.file)) then (change (parseConf h.file)).exec h else (none, h) := by
  rw [Proc.exec_guard_bind, Proc.exec_guard_bind, exec_readConf_bind, Proc.exec_guard_bind, admitted]
  cases validateName spec.name <;> cases validateAllowedIPs spec.allowedIPs <;> cases env.readConf <;> simp

theorem exec_addConfiguredPeer (key : Text) (spec : PeerSpec) (h : Host) :
    (addConfiguredPeer env key spec).exec h =
      if admitted env spec ((parseConf h.file).findPeer key).isNone then
        (writeConfAndApply env ((parseConf h.file).addPeer ⟨spec.name, peerOpts key spec⟩) key spec.allowedIPs
          spec.keepalive).exec h
      else (none, h) :=
  exec_admitted env spec (fun conf => (conf.findPeer key).isNone) _ h

theorem exec_updatePeer (id : Text) (spec : PeerSpec) (h : Host) :
    (updatePeer env id spec).exec h =
      if admitted env spec ((parseConf h.file).findPeer id).isSome then
        (writeConfAndApply env ((parseConf h.file).replacePeer id ⟨spec.name, peerOpts id spec⟩) id spec.allowedIPs
          spec.keepalive).exec h
      else (none, h) :=
  exec_admitted env spec (fun conf => (conf.findPeer id).isSome) _ h

/-- A peer with drawn keys is added as one with a key of its own. -/
theorem exec_addPeer (drawn : Option (List UInt8 × List UInt8)) (spec : PeerSpec) (h : Host) :
    (addPeer env drawn spec).exec h =
      match generateKeyPair drawn with
      | none => (none, h)
      | some keys =>
        (((addConfiguredPeer env keys.2 spec).exec h).1.map fun _ => keys,
          ((addConfiguredPeer env keys.2 spec).exec h).2) := by
  have rest : ∀ (keys : Text × Text) (m : Proc Host Unit), (do m; return keys : Proc Host (Text × Text)).exec h =
      ((m.exec h).1.map fun _ => keys, (m.exec h).2) := by
    intro keys m
    rw [Proc.exec_bind]
    rcases m.exec h with ⟨_ | _, h'⟩ <;> rfl
  unfold addPeer addConfiguredPeer
  simp only [Proc.exec_guard_bind, Proc.exec_lift_bind, exec_readConf_bind, rest]
  cases generateKeyPair drawn <;> cases validateName spec.name <;> cases validateAllowedIPs spec.allowedIPs <;>
    cases env.readConf <;> try rfl
  rename_i keys
  by_cases fresh : ((parseConf h.file).findPeer keys.2).isNone = true
  · simp only [fresh, if_true]
  · simp only [fresh, if_true]
    rfl

theorem writeConfAndApply_done {conf : ConfFile} {pub : Text} {allowedIPs : List Text} {keepalive : Int} {h h' : Host}
    (done : (writeConfAndApply env conf pub allowedIPs keepalive).exec h = (some (), h')) :
    h' = { h with file := conf.render, live := h.live.upsert pub ⟨allowedIPs, max keepalive 0⟩ } := by
  rw [exec_writeConfAndApply] at done
  cases write : env.writeConf with
  | false => simp [write] at done
  | true =>
    cases apply : env.apply with
    | false => simp [write, apply] at done
    | true =>
      rw [write, apply, if_pos rfl, if_pos rfl] at done
      exact (Prod.mk.inj done).2.symm

theorem addConfiguredPeer_done {key : Text} {spec : PeerSpec} {h h' : Host}
    (done : (addConfiguredPeer env key spec).exec h = (some (), h')) :
    admitted env spec ((parseConf h.file).findPeer key).isNone = true ∧
      h' = { h with
        file := ((parseConf h.file).addPeer ⟨spec.name, peerOpts key spec⟩).render
        live := h.live.upsert key ⟨spec.allowedIPs, max spec.keepalive 0⟩ } := by
  rw [exec_addConfiguredPeer] at done
  split at done
  · rename_i passed
    exact ⟨passed, writeConfAndApply_done env done⟩
  · cases done

end

section
variable {key : Text} {spec : PeerSpec}

variable {k value : Text}

theorem getOpt_cons_of_eq {opts : List KV} (same : equalFold k key = true) :
    getOpt (⟨k, value⟩ :: opts) key = some value := by
  rw [getOpt, List.find?_cons_of_pos (p := fun kv : KV => equalFold kv.key key) same]
  rfl

theorem getOpt_cons_of_ne {opts : List KV} (other : equalFold k key = false) :
    getOpt (⟨k, value⟩ :: opts) key = getOpt opts key := by
  rw [getOpt, List.find?_cons_of_neg (p := fun kv : KV => equalFold kv.key key) (by simp [other])]
  rfl

theorem getOpt_publicKey (key : Text) (spec : PeerSpec) :
    getOpt (peerOpts key spec) "PublicKey".toList = some key := getOpt_cons_of_eq (equalFold_refl _)

theorem getOpt_allowedIPs (key : Text) (spec : PeerSpec) :
    getOpt (peerOpts key spec) "AllowedIPs".toList = some ([',', ' '].intercalate spec.allowedIPs) :=
  (getOpt_cons_of_ne (by decide +kernel)).trans (getOpt_cons_of_eq (equalFold_refl _))

theorem getOpt_keepalive (key : Text) (spec : PeerSpec) :
    getOpt (peerOpts key spec) "PersistentKeepalive".toList =
      if 0 < spec.keepalive then some (Text.itoa spec.keepalive)
      else getOpt spec.extra "PersistentKeepalive".toList := by
  refine (getOpt_cons_of_ne (by decide +kernel)).trans ((getOpt_cons_of_ne (by decide +kernel)).trans ?_)
  split
  · exact getOpt_cons_of_eq (equalFold_refl _)
  · rfl

/-- Texts that a list with commas can hold. -/
def PlainParts (parts : List Text) : Prop := ∀ part ∈ parts, part ≠ [] ∧ ∀ c ∈ part, Text.isSpace c = false ∧ c ≠ ','

/-- Each address of a list that passes is a plain text of its own. -/
theorem validateAllowedIPs_plain {ips : List Text} (valid : validateAllowedIPs ips = true) : PlainParts ips := by
  rw [validateAllowedIPs, Bool.and_eq_true, List.all_eq_true] at valid
  intro ip member
  obtain ⟨result, parsed⟩ := Option.isSome_iff_exists.mp (valid.2 ip member)
  refine ⟨?_, fun c inside => Inet.textChar_plain (Inet.textChar_parseCIDR parsed c inside)⟩
  rintro rfl
  cases parsed

/-- A text that is read back from the file as it was written. -/
structure PlainValue (value : Text) : Prop where
  trimmed : Text.trimSpace value = value
  single : '\n' ∉ value

theorem plainValue_itoa (n : Int) : PlainValue (Text.itoa n) := by
  have solid : ∀ c ∈ Text.itoa n, Text.isSpace c = false := by
    intro c member
    rcases Text.mem_of_readSigned (Text.readSigned_itoa n) member with digit | sign
    · exact (Inet.textChar_plain (Inet.textChar_of_isDigit digit)).1
    · rcases sign with rfl | rfl <;> decide
  refine ⟨(Text.trimmed_of_no_space solid).trimSpace_eq, fun member => ?_⟩
  exact absurd (solid '\n' member) (by decide)

theorem plainValue_nil : PlainValue [] := ⟨rfl, by simp⟩

variable {parts : List Text}

theorem PlainParts.trimmed (plain : PlainParts parts) : ∀ part ∈ parts, part ≠ [] ∧ Text.Trimmed part :=
  fun part member =>
    ⟨(plain part member).1, Text.trimmed_of_no_space fun c inside => ((plain part member).2 c inside).1⟩

theorem newline_not_mem_joined (single : ∀ part ∈ parts, '\n' ∉ part) : '\n' ∉ [',', ' '].intercalate parts := by
  cases parts with
  | nil => simp
  | cons first rest =>
    rw [Text.intercalate_space, Text.mem_intercalate (by decide)]
    rintro ⟨part, listed, inside⟩
    rcases List.mem_cons.mp listed with rfl | later
    · exact single part List.mem_cons_self inside
    · obtain ⟨part, own, rfl⟩ := List.mem_map.mp later
      rcases List.mem_cons.mp inside with space | inside
      · cases space
      · exact single part (List.mem_cons_of_mem _ own) inside

theorem PlainParts.plainValue (plain : PlainParts parts) : PlainValue ([',', ' '].intercalate parts) := by
  have solid : ∀ part ∈ parts, '\n' ∉ part := fun part member inside =>
    absurd ((plain part member).2 '\n' inside).1 (by decide)
  refine ⟨?_, newline_not_mem_joined solid⟩
  by_cases empty : parts = []
  · rw [empty]
    rfl
  · exact (Text.Trimmed.intercalate _ empty plain.trimmed).1.trimSpace_eq

/-- The texts are read back as they were joined. -/
theorem PlainParts.allowedIPs (plain : PlainParts parts) {p : ConfPeer}
    (found : getOpt p.opts "AllowedIPs".toList = some ([',', ' '].intercalate parts)) : p.allowedIPs = parts := by
  rw [ConfPeer.allowedIPs, found]
  dsimp only
  by_cases empty : parts = []
  · rw [empty]
    rfl
  · rw [if_pos (Text.Trimmed.intercalate _ empty plain.trimmed).2]
    exact Text.map_trimSpace_splitOn_intercalate empty (fun part member inside => ((plain part member).2 ',' inside).2 rfl)
      (by decide) fun part member => (plain.trimmed part member).2.trimSpace_eq

theorem KV.Valid.of_plain (keyValid : KV.KeyValid ⟨k, value⟩) (plain : PlainValue value) : KV.Valid ⟨k, value⟩ :=
  ⟨keyValid.trimmed, keyValid.plain, keyValid.option, plain.trimmed, plain.single⟩

/-- The keys of a peer's own options. -/
theorem peerKeys_valid (member : k ∈ ["PublicKey".toList, "AllowedIPs".toList, "PersistentKeepalive".toList]) (value : Text) :
    KV.KeyValid ⟨k, value⟩ := KV.keyValid_of_mem (by decide +kernel) member value

theorem peerOpts_valid (plain : PlainValue key) (ips : validateAllowedIPs spec.allowedIPs = true)
    (extra : ∀ kv ∈ spec.extra, kv.Valid) : ∀ kv ∈ peerOpts key spec, kv.Valid := by
  intro kv member
  rw [peerOpts, List.mem_append, List.mem_append] at member
  rcases member with (own | keepalive) | more
  · rcases List.mem_cons.mp own with rfl | own
    · exact .of_plain (peerKeys_valid List.mem_cons_self _) plain
    · rw [List.mem_singleton.mp own]
      exact .of_plain (peerKeys_valid (List.mem_cons_of_mem _ List.mem_cons_self) _)
        (validateAllowedIPs_plain ips).plainValue
  · split at keepalive
    · rw [List.mem_singleton.mp keepalive]
      exact .of_plain (peerKeys_valid (List.mem_cons_of_mem _ (List.mem_cons_of_mem _ List.mem_cons_self)) _)
        (plainValue_itoa _)
    · cases keepalive
  · exact extra kv more

theorem allowedIPs_peerOpts (name : Text) (ips : validateAllowedIPs spec.allowedIPs = true) :
    ConfPeer.allowedIPs ⟨name, peerOpts key spec⟩ = spec.allowedIPs :=
  (validateAllowedIPs_plain ips).allowedIPs (getOpt_allowedIPs key spec)

end

end Protean.WgFamily
