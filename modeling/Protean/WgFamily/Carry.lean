import Protean.PeerID
import Protean.WgFamily.ClientConfig
import Protean.WgFamily.Sweep

namespace Protean.WgFamily

structure PortalEnv where
  getUser : Bool := true
  getOwner : Bool := true
  client : ClientEnv := {}

/-- The user who is signed in owns the peer with this id in the url. -/
def portalOwnsPeer (env : PortalEnv) (user : Int) (peerKey : Text) (t : Store.PeerTables) : Bool :=
  env.getUser && env.getOwner && t.owner.get peerKey = some user

def apiPortalPeerConfig (env : PortalEnv) (publicHost : Text) (user : Int) (key : Text) : Proc Panel Text := do
  Proc.read fun p => if portalOwnsPeer env user key p.tables then some () else none
  let pubkey ← Proc.lift (decodePeerID key)
  buildClientConfigText env.client publicHost pubkey

/-- Every read for a download works, and the stored key can be opened. -/
structure PortalEnv.Works (env : PortalEnv) (sealSecret : Text → Option Text) : Prop where
  reads : env.getUser = true ∧ env.getOwner = true ∧ env.client.getSecret = true
  status : env.client.status.dump = .up
  list : env.client.list.dump = .up ∧ env.client.list.readConf = true
  opens : ∀ priv blob, sealSecret priv = some blob → env.client.openSecret blob = some priv
  mesh : env.client.mesh.settings.isSome = true ∧ env.client.mesh.subnets.isSome = true

/-- What is recorded about the old key is recorded about the new one. The last
two are what follows for the sweep and for the owner. -/
structure CarriesState (sealSecret : Text → Option Text) (old new : Text) (before after : Panel) : Prop where
  expiry : after.tables.expiry.get new = before.tables.expiry.get old
  muted : after.tables.muted.get new = before.tables.muted.get old
  category : after.tables.category.get new = before.tables.category.get old
  owner : after.tables.owner.get (encodePeerID new) = before.tables.owner.get (encodePeerID old)
  node : after.tables.node.get (encodePeerID new) = before.tables.node.get (encodePeerID old)
  forwardRules : after.tables.forwardRules.get (encodePeerID new) = before.tables.forwardRules.get (encodePeerID old)
  swept : ∀ (env : SweepEnv) (now expires : Int), env.listDue = true → (env.disable new).Works →
    before.tables.expiry.get old = some expires → expires ≤ now → IsDisabled new (sweepExpired env now after)
  downloads : ∀ (env : PortalEnv) (publicHost : Text) (user : Int), env.Works sealSecret →
    before.tables.owner.get (encodePeerID old) = some user →
    ((apiPortalPeerConfig env publicHost user (encodePeerID new)).exec after).1.isSome = true

/-- There is nothing to carry but a category. -/
structure OnlyCategory (env : RotateEnv) (old new : Text) (t : Store.PeerTables) : Prop where
  expiry : t.expiry.get new = t.expiry.get old
  muted : t.muted.get new = t.muted.get old
  category : t.category.get new = t.category.get old ∨
    env.listCategories = true ∧ env.setCategory = true ∧ ∃ c, c ≠ [] ∧ t.category.get old = some c
  owner : t.owner.get (encodePeerID new) = t.owner.get (encodePeerID old)
  node : t.node.get (encodePeerID new) = t.node.get (encodePeerID old)
  forwardRules : t.forwardRules.get (encodePeerID new) = t.forwardRules.get (encodePeerID old)

section
variable {env : RotateEnv} {old new : Text} {p p' : Panel}

/-- The new key after a rotation that succeeds: drawn, in the file and on the
interface, with its private key stored. -/
structure Rotated (env : RotateEnv) (old new priv blob : Text) (p p' : Panel) : Prop where
  drawn : ∃ bytes, new = Base64.encodeStd bytes
  different : new ≠ old
  blocks : 0 < blockCount p'.host.file new
  live : (p'.host.live.get new).isSome = true
  sealed : env.secret.sealSecret priv = some blob
  tables : p'.tables = rotatedTables env old new blob p.tables

theorem apiRotatePeer_done (rotated : (apiRotatePeer env old).exec p = (some new, p')) :
    ∃ priv blob, Rotated env old new priv blob p p' := by
  rw [exec_apiRotatePeer, exec_rotatePeerKey] at rotated
  cases writes : rotationWrites env.rotate env.drawn old p.host with
  | none =>
    rw [writes] at rotated
    cases rotated
  | some result =>
    obtain ⟨peer, keys⟩ := result
    obtain ⟨_, there, generated, fresh⟩ := rotationWrites_eq_some_iff.mp writes
    have plain := plainValue_generateKeyPair generated
    obtain ⟨bytes, _, same⟩ := Option.map_eq_some_iff.mp generated
    rw [writes] at rotated
    cases remove : env.rotate.remove <;> cases apply : env.rotate.apply <;> rw [remove, apply] at rotated
    · cases rotated
    · cases rotated
    · cases rotated
    · simp only [if_true] at rotated
      cases stored : env.secret.stored keys.1 with
      | none =>
        rw [stored] at rotated
        cases rotated
      | some blob =>
        rw [stored] at rotated
        obtain ⟨key, rfl⟩ := Prod.mk.inj rotated
        obtain rfl := Option.some.inj key
        refine ⟨keys.1, blob, ⟨_, (congrArg Prod.snd same).symm⟩, ?_, ?_, ?_, ?_, rfl⟩
        · rintro rfl
          rw [fresh] at there
          cases there
        · exact isSome_findPeer_iff.mp (findPeer_addPeer_isSome (removePeer_valid (parseConf_valid _) old) plain _ _)
        · rw [KeyTable.get_upsert_self]
          rfl
        · unfold SecretEnv.stored at stored
          split at stored
          · exact stored
          · cases stored

theorem get_carriedCategory (env : RotateEnv) (old new : Text) (category : KeyTable Text Text) :
    (carriedCategory env old new category).get new = category.get old ↔
      category.get new = category.get old ∨
        env.listCategories = true ∧ env.setCategory = true ∧ ∃ c, c ≠ [] ∧ category.get old = some c := by
  unfold carriedCategory
  dsimp only
  split
  · rename_i carried
    obtain ⟨lists, some', sets⟩ := carried
    rw [KeyTable.get_upsert_self]
    cases row : category.get old with
    | none =>
      rw [row] at some'
      exact absurd rfl some'
    | some c =>
      rw [row] at some'
      exact iff_of_true rfl (.inr ⟨lists, sets, c, some', rfl⟩)
  · rename_i uncarried
    constructor
    · exact .inl
    · rintro (same | ⟨lists, sets, c, some', row⟩)
      · exact same
      · rw [row] at uncarried
        exact absurd ⟨lists, some', sets⟩ uncarried

theorem category_rotatedTables (different : new ≠ old) (blob : Text) (t : Store.PeerTables) :
    (rotatedTables env old new blob t).category.get new = (carriedCategory env old new t.category).get new := by
  unfold rotatedTables
  dsimp only
  split
  · exact KeyTable.get_delete_of_ne _ different
  · rfl

theorem secrets_rotatedTables (different : new ≠ old) (blob : Text) (t : Store.PeerTables) :
    (rotatedTables env old new blob t).secrets.get new = some blob := by
  unfold rotatedTables
  dsimp only
  split
  · rw [KeyTable.get_delete_of_ne _ different, KeyTable.get_upsert_self]
  · rw [KeyTable.get_upsert_self]

theorem buildClientConfigText_isSome {env : ClientEnv} {publicHost key priv : Text}
    (status : env.status.dump = .up) (list : env.list.dump = .up ∧ env.list.readConf = true)
    (mesh : env.mesh.settings.isSome = true ∧ env.mesh.subnets.isSome = true)
    (live : (p.host.live.get key).isSome = true) (secret : storedKey env key p = some priv) :
    ((buildClientConfigText env publicHost key).exec p).1.isSome = true := by
  obtain ⟨peer, found⟩ := Option.isSome_iff_exists.mp live
  obtain ⟨settings, known⟩ := Option.isSome_iff_exists.mp mesh.1
  obtain ⟨subnets, listed⟩ := Option.isSome_iff_exists.mp mesh.2
  have routed : ∀ ips, ∃ routes, routesForPeer env.mesh ips = some routes := by
    intro ips
    rw [routesForPeer, known, listed]
    exact ⟨_, rfl⟩
  unfold buildClientConfigText
  rw [Proc.exec_bind, onHost, Proc.exec_zoom, exec_status, status]
  dsimp only
  rw [Proc.exec_bind, onHost, Proc.exec_zoom, exec_findListed, if_pos list, found]
  dsimp only [Option.map_some]
  obtain ⟨routes, routed⟩ := routed peer.allowedIPs
  rw [Proc.exec_bind, Proc.exec_read]
  have secret' : storedKey env key { p with host := p.host } = some priv := secret
  rw [secret']
  dsimp only
  rw [routed]
  rfl

/-- The owner of the new key gets a config for it. -/
theorem Rotated.downloads {priv blob : Text} (rotated : Rotated env old new priv blob p p') {portal : PortalEnv}
    {user : Int} (works : portal.Works env.secret.sealSecret) (owned : p'.tables.owner.get (encodePeerID new) = some user)
    (publicHost : Text) :
    ((apiPortalPeerConfig portal publicHost user (encodePeerID new)).exec p').1.isSome = true := by
  have owns : portalOwnsPeer portal user (encodePeerID new) p'.tables = true := by
    simp [portalOwnsPeer, works.reads, owned]
  have decoded : decodePeerID (encodePeerID new) = some new := by
    obtain ⟨bytes, rfl⟩ := rotated.drawn
    exact decodePeerID_encodePeerID_encodeStd bytes
  have secret : storedKey portal.client new p' = some priv := by
    rw [storedKey, rotated.tables, secrets_rotatedTables rotated.different, if_pos works.reads.2.2]
    exact works.opens priv blob rotated.sealed
  unfold apiPortalPeerConfig
  rw [Proc.exec_bind, Proc.exec_read, owns, if_pos rfl]
  dsimp only
  rw [decoded, Proc.exec_lift_bind]
  exact buildClientConfigText_isSome works.status works.list works.mesh rotated.live secret

/-- A rotation carries what is recorded about a peer exactly if there is nothing
but a category, or the new key had the same before. -/
theorem rotation_carries_state_iff (rotated : (apiRotatePeer env old).exec p = (some new, p')) :
    CarriesState env.secret.sealSecret old new p p' ↔ OnlyCategory env old new p.tables := by
  obtain ⟨priv, blob, rotated⟩ := apiRotatePeer_done rotated
  have category : p'.tables.category.get new = (carriedCategory env old new p.tables.category).get new := by
    rw [rotated.tables]
    exact category_rotatedTables rotated.different blob p.tables
  have carried := get_carriedCategory env old new p.tables.category
  have tables : p'.tables.expiry = p.tables.expiry ∧ p'.tables.muted = p.tables.muted ∧
      p'.tables.owner = p.tables.owner ∧ p'.tables.node = p.tables.node ∧
      p'.tables.forwardRules = p.tables.forwardRules := by
    rw [rotated.tables]
    exact ⟨rfl, rfl, rfl, rfl, rfl⟩
  obtain ⟨expiry, muted, owner, node, forwardRules⟩ := tables
  constructor
  · intro carries
    exact ⟨expiry ▸ carries.expiry, muted ▸ carries.muted, carried.mp (category.symm.trans carries.category),
      owner ▸ carries.owner, node ▸ carries.node, forwardRules ▸ carries.forwardRules⟩
  · intro only
    refine ⟨expiry ▸ only.expiry, muted ▸ only.muted, category.trans (carried.mpr only.category), owner ▸ only.owner,
      node ▸ only.node, forwardRules ▸ only.forwardRules, ?_, ?_⟩
    · intro sweep now expires lists works row due
      have own : p'.tables.expiry.get new = some expires := by rw [expiry, only.expiry, row]
      exact sweepExpired_disables own due lists works rotated.blocks rotated.live
    · intro portal publicHost user works owned
      exact rotated.downloads works (by rw [owner, only.owner, owned]) publicHost

end

def carryPanel (tables : Store.PeerTables) : Panel := ⟨rotationPanel.host, tables⟩

def categorized : Store.PeerTables where
  category := KeyTable.empty.upsert "a2V5".toList "site".toList

theorem rotation_carries_state_iff_sample :
    CarriesState some "a2V5".toList "Ag==".toList (carryPanel categorized)
      ((apiRotatePeer (rotationEnv true true true) "a2V5".toList).exec (carryPanel categorized)).2 := by
  have rotated : ((apiRotatePeer (rotationEnv true true true) "a2V5".toList).exec (carryPanel categorized)).1 =
      some "Ag==".toList := by decide +kernel
  have unset : ∀ {ν : Type} (a b : Text),
      (KeyTable.empty : KeyTable Text ν).get a = (KeyTable.empty : KeyTable Text ν).get b :=
    fun _ _ => rfl
  have carried : ∃ c, c ≠ [] ∧ categorized.category.get "a2V5".toList = some c :=
    ⟨"site".toList, by decide, KeyTable.get_upsert_self _ _ _⟩
  exact (rotation_carries_state_iff (Prod.ext rotated rfl)).mpr
    ⟨unset _ _, unset _ _, .inr ⟨rfl, rfl, carried⟩, unset _ _, unset _ _, unset _ _⟩

/-- A peer that expires at 5 and has an owner. -/
def claimed : Store.PeerTables where
  expiry := KeyTable.empty.upsert "a2V5".toList 5
  owner := KeyTable.empty.upsert (encodePeerID "a2V5".toList) 7

/-- The new key never expires, and its owner is refused. -/
theorem rotation_drops_state :
    ((apiRotatePeer (rotationEnv true true true) "a2V5".toList).exec (carryPanel claimed)).1 = some "Ag==".toList ∧
      ¬ CarriesState some "a2V5".toList "Ag==".toList (carryPanel claimed)
        ((apiRotatePeer (rotationEnv true true true) "a2V5".toList).exec (carryPanel claimed)).2 ∧
      ((sweepExpired {} 6 ((apiRotatePeer (rotationEnv true true true) "a2V5".toList).exec
        (carryPanel claimed)).2).host.live.get "Ag==".toList).isSome = true ∧
      ((apiPortalPeerConfig {} [] 7 (encodePeerID "Ag==".toList)).exec
        ((apiRotatePeer (rotationEnv true true true) "a2V5".toList).exec (carryPanel claimed)).2).1 = none := by
  refine ⟨by decide +kernel, fun carries => ?_, by decide +kernel, by decide +kernel⟩
  exact absurd carries.expiry (by decide +kernel)

end Protean.WgFamily
