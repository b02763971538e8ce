import Protean.WgFamily.Rotation

namespace Protean.WgFamily

/-- The options that the panel does not ask for when it changes a peer: the
preshared key, the endpoint and whatever else stands in a block. -/
def KV.isOther (kv : KV) : Bool :=
  !equalFold kv.key "PublicKey".toList && !equalFold kv.key "AllowedIPs".toList &&
    !equalFold kv.key "PersistentKeepalive".toList

def ConfPeer.otherOpts (p : ConfPeer) : List KV := p.opts.filter KV.isOther

/-- What a file gives a peer besides its key, addresses and keepalive, and so
what the interface has for it when it is brought up from the file. -/
def loadedOpts (file key : Text) : List KV := (((parseConf file).findPeer key).map ConfPeer.otherOpts).getD []

/-- The interface, loaded again, has every option that it had. -/
def KeepsOpts (before key after key' : Text) : Prop := ∀ kv ∈ loadedOpts before key, kv ∈ loadedOpts after key'

section
variable {key : Text} {spec : PeerSpec} {h h' : Host}

theorem isOther_of_mem_loadedOpts {file : Text} {kv : KV} (member : kv ∈ loadedOpts file key) : kv.isOther = true := by
  unfold loadedOpts at member
  cases found : (parseConf file).findPeer key with
  | none =>
    rw [found] at member
    cases member
  | some p =>
    rw [found] at member
    exact (List.mem_filter.mp member).2

theorem loadedOpts_of_findPeer {file : Text} {p : ConfPeer} (found : (parseConf file).findPeer key = some p) :
    loadedOpts file key = p.otherOpts := by
  rw [loadedOpts, found]
  rfl

/-- Of the options of a new block only those that are given are others. -/
theorem otherOpts_peerOpts (name key : Text) (spec : PeerSpec) :
    ConfPeer.otherOpts ⟨name, peerOpts key spec⟩ = spec.extra.filter KV.isOther := by
  have own : ∀ value, KV.isOther ⟨"PublicKey".toList, value⟩ = false ∧ KV.isOther ⟨"AllowedIPs".toList, value⟩ = false ∧
      KV.isOther ⟨"PersistentKeepalive".toList, value⟩ = false := by
    intro value
    simp only [KV.isOther, equalFold_refl, Bool.not_true, Bool.false_and, Bool.and_false, and_self]
  unfold ConfPeer.otherOpts peerOpts
  rw [List.filter_append, List.filter_append, List.filter_cons_of_neg (Bool.eq_false_iff.mp (own _).1),
    List.filter_cons_of_neg (Bool.eq_false_iff.mp (own _).2.1), List.filter_nil, List.nil_append]
  split
  · rw [List.filter_cons_of_neg (Bool.eq_false_iff.mp (own _).2.2), List.filter_nil, List.nil_append]
  · rw [List.filter_nil, List.nil_append]

theorem loadedOpts_updatePeer {env : Env} (done : (updatePeer env key spec).exec h = (some (), h')) :
    loadedOpts h'.file key = (blockOpts (interfaceLines spec.extra)).filter KV.isOther := by
  obtain ⟨-, block, found, rfl, -⟩ := updatePeer_done done
  rw [loadedOpts_of_findPeer found, otherOpts_peerOpts]

/-- The options of the block that a rotation writes are lines of their own. -/
theorem rotated_single {content old pub : Text} {peer : ConfPeer} (there : (parseConf content).findPeer old = some peer)
    (plain : PlainValue pub) :
    ∀ kv ∈ peerOpts pub ⟨peer.name, peer.allowedIPs, peer.keepalive, []⟩, kv.KeyValid ∧ '\n' ∉ kv.value := by
  have parts : ∀ part ∈ peer.allowedIPs, '\n' ∉ part := by
    intro part member inside
    unfold ConfPeer.allowedIPs at member
    split at member
    · rename_i value found
      split at member
      · obtain ⟨raw, listed, rfl⟩ := List.mem_map.mp member
        obtain ⟨kv, option, rfl⟩ := mem_of_getOpt found
        have valid := (parseConf_valid content).peers peer (List.mem_of_find?_eq_some there) kv option
        exact valid.value_plain ((Text.mem_splitOn (by decide) _).mpr ⟨raw, listed, Text.mem_of_mem_trimSpace inside⟩)
      · cases member
    · cases member
  intro kv member
  rw [peerOpts, List.append_nil, List.mem_append, List.mem_cons, List.mem_singleton] at member
  rcases member with (rfl | rfl) | keepalive
  · exact ⟨peerKeys_valid List.mem_cons_self _, plain.single⟩
  · exact ⟨peerKeys_valid (List.mem_cons_of_mem _ List.mem_cons_self) _, newline_not_mem_joined parts⟩
  · split at keepalive
    · rw [List.mem_singleton.mp keepalive]
      exact ⟨peerKeys_valid (List.mem_cons_of_mem _ (List.mem_cons_of_mem _ List.mem_cons_self)) _,
        (plainValue_itoa _).single⟩
    · cases keepalive

theorem rotatePeerKey_done {env : Env} {drawn : Option (List UInt8 × List UInt8)} {keys : Text × Text}
    (done : (rotatePeerKey env drawn key).exec h = (some keys, h')) :
    ∃ peer, (parseConf h.file).findPeer key = some peer ∧ generateKeyPair drawn = some keys ∧
      (parseConf h.file).findPeer keys.2 = none ∧ h'.file = (rotatedConf key (parseConf h.file) peer keys.2).render := by
  rw [exec_rotatePeerKey] at done
  cases writes : rotationWrites env drawn key h with
  | none =>
    rw [writes] at done
    cases done
  | some result =>
    obtain ⟨peer, keys'⟩ := result
    obtain ⟨_, there, generated, fresh⟩ := rotationWrites_eq_some_iff.mp writes
    rw [writes] at done
    cases remove : env.remove <;> cases apply : env.apply <;> rw [remove, apply] at done
    · cases done
    · cases done
    · cases done
    · obtain ⟨same, rfl⟩ := Prod.mk.inj done
      obtain rfl := Option.some.inj same
      exact ⟨peer, there, generated, fresh, rfl⟩

/-- A rotation writes none of the other options. -/
theorem loadedOpts_rotatePeerKey {env : Env} {drawn : Option (List UInt8 × List UInt8)} {keys : Text × Text}
    (done : (rotatePeerKey env drawn key).exec h = (some keys, h')) : loadedOpts h'.file keys.2 = [] := by
  obtain ⟨peer, there, generated, fresh, file⟩ := rotatePeerKey_done done
  have plain := plainValue_generateKeyPair generated
  have options := blockOpts_of_single (rotated_single there plain)
  have gone : (((parseConf h.file).removePeer key).findPeer keys.2).isNone = true := by
    refine Option.isNone_iff_eq_none.mpr (List.find?_eq_none.mpr fun p member => ?_)
    exact List.find?_eq_none.mp fresh p (List.eraseP_sublist.subset member)
  have own : getOpt (blockOpts (interfaceLines (peerOpts keys.2 ⟨peer.name, peer.allowedIPs, peer.keepalive, []⟩)))
      "PublicKey".toList = some keys.2 := by
    rw [options]
    exact (getOpt_cons_of_eq (equalFold_refl _)).trans (congrArg some plain.trimmed)
  have placed : Placed _ (rotatedConf key (parseConf h.file) peer keys.2) _ _ _ _ := addPeer_placed gone _
  have found := placed.findPeer_block (removePeer_valid (parseConf_valid _) key) own
  rw [file, loadedOpts_of_findPeer found, ConfPeer.otherOpts, options]
  -- a filter by key does not see the values
  have byKey : KV.isOther ∘ (fun kv : KV => (⟨kv.key, Text.trimSpace kv.value⟩ : KV)) = KV.isOther := rfl
  rw [List.filter_map, byKey]
  exact congrArg _ (otherOpts_peerOpts peer.name keys.2 _)

end

/-- Editing a peer keeps its other options exactly if all of them are given
again, and rotating its key exactly if it has none. -/
theorem edited_peer_keeps_opts_iff (h : Host) (key : Text) :
    (∀ env spec h', (updatePeer env key spec).exec h = (some (), h') →
      (KeepsOpts h.file key h'.file key ↔
        ∀ kv ∈ loadedOpts h.file key, kv ∈ blockOpts (interfaceLines spec.extra))) ∧
    ∀ env drawn keys h', (rotatePeerKey env drawn key).exec h = (some keys, h') →
      (KeepsOpts h.file key h'.file keys.2 ↔ loadedOpts h.file key = []) := by
  refine ⟨fun env spec h' done => ?_, fun env drawn keys h' done => ?_⟩
  · unfold KeepsOpts
    rw [loadedOpts_updatePeer done]
    refine forall₂_congr fun kv member => ?_
    rw [List.mem_filter, and_iff_left (isOther_of_mem_loadedOpts member)]
  · unfold KeepsOpts
    rw [loadedOpts_rotatePeerKey done]
    constructor
    · exact fun kept => List.eq_nil_iff_forall_not_mem.mpr fun kv member => List.not_mem_nil (kept kv member)
    · intro none kv member
      rwa [none] at member

def sharedKeyHost : Host :=
  ⟨"[Peer]\nPublicKey = a2V5\nAllowedIPs = 10.0.0.2/32\nPresharedKey = cHNr\n".toList, [], 0,
    KeyTable.empty.upsert "a2V5".toList ⟨["10.0.0.2/32".toList], 0⟩⟩

/-- An edit and a rotation of a peer with a preshared key, both without it. -/
theorem edited_peer_loses_preshared_key :
    loadedOpts sharedKeyHost.file "a2V5".toList = [⟨"PresharedKey".toList, "cHNr".toList⟩] ∧
    (∃ h', (updatePeer {} "a2V5".toList ⟨"a".toList, ["10.0.0.2/32".toList], 0, []⟩).exec sharedKeyHost = (some (), h') ∧
      ¬ KeepsOpts sharedKeyHost.file "a2V5".toList h'.file "a2V5".toList) ∧
    ∃ keys h', (rotatePeerKey {} (some ([1], [2])) "a2V5".toList).exec sharedKeyHost = (some keys, h') ∧
      ¬ KeepsOpts sharedKeyHost.file "a2V5".toList h'.file keys.2 := by
  have loaded : loadedOpts sharedKeyHost.file "a2V5".toList = [⟨"PresharedKey".toList, "cHNr".toList⟩] := by
    decide +kernel
  refine ⟨loaded, ?_, ?_⟩
  · have done : ((updatePeer {} "a2V5".toList ⟨"a".toList, ["10.0.0.2/32".toList], 0, []⟩).exec sharedKeyHost).1 =
        some () := by decide +kernel
    refine ⟨_, Prod.ext done rfl, fun keeps => ?_⟩
    have kept := keeps _ (loaded ▸ List.mem_singleton_self _)
    rw [loadedOpts_updatePeer (Prod.ext done rfl)] at kept
    cases kept
  · obtain ⟨keys, done⟩ : ∃ keys, ((rotatePeerKey {} (some ([1], [2])) "a2V5".toList).exec sharedKeyHost).1 = some keys :=
      Option.isSome_iff_exists.mp (by decide +kernel)
    refine ⟨keys, _, Prod.ext done rfl, fun keeps => ?_⟩
    have kept := keeps _ (loaded ▸ List.mem_singleton_self _)
    rw [loadedOpts_rotatePeerKey (Prod.ext done rfl)] at kept
    cases kept

end Protean.WgFamily
