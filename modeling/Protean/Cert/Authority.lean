import Protean.Cert.Provider
import Protean.Run

open Proc

namespace Protean.Cert

/-- What is documented of sealing and of a generated authority. -/
structure Crypto.Documented (crypto : Crypto) : Prop where
  opens : ∀ n text enc, crypto.sealText n text = some enc → crypto.openText enc = some text
  reloads : ∀ n ca, crypto.newInternalCA n = some ca → crypto.loadCA ca.certPEM ca.keyPEM = some ca

/-- The authority that stored material stands for. -/
def authorityOf (crypto : Crypto) (m : CAMaterial) : Option CA :=
  (crypto.openText m.encKeyPEM).bind (crypto.loadCA m.certPEM)

/-- What a call must not meet: a failed read of the stored authority with none
in memory, or an import that is stored and not taken over. -/
def Steady (s : State) (e : Op × Env) : Prop :=
  match e.1 with
  | .updatePeer _ | .new => True
  | .importCA _ _ => e.2.saveCAMaterial ≠ .lost ∨ s.ca = none
  | _ => s.material = none ∨ s.ca ≠ none ∨ e.2.getCAMaterial = true

/-- The authority in memory is the one of the stored material. -/
def Sound (crypto : Crypto) (s : State) : Prop :=
  ∀ ca, s.ca = some ca → ∃ m, s.material = some m ∧ authorityOf crypto m = some ca

section
variable {crypto : Crypto} {env : Env} {kind : Kind} {I E : State → Prop} {authority authority' : Proc State CA}

/-- A property of the authority alone. -/
def OfAuthority (I : State → Prop) : Prop := ∀ s t : State, t.ca = s.ca → t.material = s.material → I s → I t

section
variable (local' : OfAuthority I)
include local'

theorem writeCCD_keeps (cn : Text) : Keeps I (writeCCD env cn) := Keeps.write fun s => local' s _ rfl rfl

theorem storeClient_keeps (cn certPEM : Text) (enc : Option Text) :
    Keeps I (storeClient env kind cn certPEM enc) := by
  refine Keeps.bind (Keeps.when (writeCCD_keeps local' cn)) fun _ => Keeps.bind ?_ fun _ => Keeps.when (Keeps.guard _)
  exact Keeps.bind (Keeps.lift _) fun key => Keeps.write fun s => local' s _ rfl rfl

theorem rebuildCRL_keeps (ca : CA) : Keeps I (rebuildCRL env ca) := by
  refine Keeps.bind (Keeps.read _) fun rows => Keeps.bind ?_ fun number => Keeps.bind (Keeps.guard _) fun _ => ?_
  · exact Keeps.bind (Keeps.write fun s => local' s _ rfl rfl) fun _ => Keeps.read _
  · exact Keeps.write fun s => local' s _ rfl rfl

theorem addRevokedCert_keeps (serial cn : Text) : Keeps I (addRevokedCert env serial cn) := by
  refine Keeps.write fun s holds => ?_
  split
  · exact holds
  · exact local' s _ rfl rfl holds

theorem removeCCD_keeps (cn : Text) : Keeps I (removeCCD env cn) :=
  Keeps.bind (Keeps.attempt (Keeps.write fun s => local' s _ rfl rfl)) fun _ => Keeps.pure ()

end

/-- Two ways to an authority that agree make calls that agree. -/
theorem runBy_agrees (local' : OfAuthority I) (weaker : ∀ s, I s → E s) (agrees : Agrees I E authority authority')
    {op : Op} (other : ∀ certPEM keyPEM, op ≠ .importCA certPEM keyPEM) (alive : op ≠ .new) :
    Agrees I E (runBy crypto env authority kind op) (runBy crypto env authority' kind op) := by
  have same : ∀ {α : Type} {m : Proc State α}, Keeps I m → Agrees I E m m := fun keeps => .refl (keeps.leads weaker)
  have revokes : ∀ cn, Agrees I E (revoke crypto env authority cn) (revoke crypto env authority' cn) := by
    intro cn
    refine .bind (same (Keeps.attempt (Keeps.read _))) fun row => ?_
    cases row with
    | none => exact same (Keeps.pure ())
    | some row =>
      refine .bind (same (Keeps.lift _)) fun serial => .bind (same (addRevokedCert_keeps local' _ cn)) fun _ => ?_
      exact .bind agrees fun ca => same (rebuildCRL_keeps local' ca)
  have store : ∀ cn certPEM enc, Agrees I E (storeClient env kind cn certPEM enc) (storeClient env kind cn certPEM enc) :=
    fun cn certPEM enc => same (storeClient_keeps local' cn certPEM enc)
  cases op with
  | addPeer name =>
    refine .bind (same (Keeps.guard _)) fun _ => .bind agrees fun ca => .bind (same (Keeps.lift _)) fun creds => ?_
    exact .bind (same (Keeps.lift _)) fun enc => .bind (same (Keeps.when (Keeps.guard _))) fun _ => store _ _ _
  | addPeerFromCSR csrPEM name =>
    refine .bind (same (Keeps.guard _)) fun _ => .bind agrees fun ca => .bind (same (Keeps.lift _)) fun certPEM => ?_
    exact store _ _ _
  | importPeer certPEM keyPEM =>
    refine .bind agrees fun ca => .bind (same (Keeps.lift _)) fun cn => ?_
    split
    · exact store _ _ _
    · refine .bind (same (Keeps.guard _)) fun _ => .bind (same (Keeps.lift _)) fun enc => ?_
      exact .bind (same (Keeps.when (Keeps.guard _))) fun _ => store _ _ _
  | updatePeer id => exact .bind (same (Keeps.read _)) fun row => store _ _ _
  | removePeer id =>
    refine .bind (revokes id) fun _ => .bind (same (Keeps.when (removeCCD_keeps local' id))) fun _ => ?_
    refine .bind (same (Keeps.write fun s => local' s _ rfl rfl)) fun _ => ?_
    exact same (Keeps.when (Keeps.guard _))
  | rebuildCRL => exact .bind agrees fun ca => same (rebuildCRL_keeps local' ca)
  | clientConfigFile id =>
    refine .bind (.bind agrees fun ca => .bind (same (Keeps.read _)) fun row => ?_) fun _ => same (Keeps.pure ())
    split
    · exact same (Keeps.pure _)
    · refine .bind (same (Keeps.lift _)) fun keyPEM => ?_
      exact .bind (same (Keeps.when (Keeps.guard _))) fun _ => same (Keeps.pure _)
  | clientProfile id format =>
    refine .bind (.bind (same (Keeps.guard _)) fun _ => .bind agrees fun ca => ?_) fun _ => same (Keeps.pure ())
    refine .bind (same (Keeps.read _)) fun row => .bind (same (Keeps.guard _)) fun _ => ?_
    refine .bind (same (Keeps.lift _)) fun keyPEM => .bind (same (Keeps.guard _)) fun _ => ?_
    exact .bind (same (Keeps.guard _)) fun _ => same (Keeps.pure _)
  | ensureServer =>
    refine .bind agrees fun ca => .bind (same (Keeps.lift _)) fun _ => .bind (same (Keeps.guard _)) fun _ => ?_
    exact .bind (same (rebuildCRL_keeps local' ca)) fun _ => same (Keeps.guard _)
  | importCA certPEM keyPEM => exact absurd rfl (other certPEM keyPEM)
  | new => exact absurd rfl alive

/-- The stored material can be had: there is none, its authority is in memory,
or the read works. -/
def Readable (env : Env) (s : State) : Prop := s.material = none ∨ s.ca ≠ none ∨ env.getCAMaterial = true

theorem fromMaterial_loads {P : State → Prop} (m : CAMaterial) :
    Triple P (fromMaterial crypto m)
      (fun ca t => ∃ s, P s ∧ t = { s with ca := some ca } ∧ authorityOf crypto m = some ca)
      (fun s => P s ∧ authorityOf crypto m = none) := by
  refine Triple.lift_bind (fun closed s start => ⟨start, ?_⟩) fun keyPEM opened => ?_
  · rw [authorityOf, closed]
    rfl
  have authority : authorityOf crypto m = crypto.loadCA m.certPEM keyPEM := by
    rw [authorityOf, opened]
    rfl
  refine Triple.lift_bind (fun refused s start => ⟨start, authority.trans refused⟩) fun ca loaded => ?_
  exact Triple.bind (Q := fun _ t => ∃ s, P s ∧ t = { s with ca := some ca } ∧ authorityOf crypto m = some ca)
    (Triple.modify fun s start => ⟨s, start, rfl, authority.trans loaded⟩) fun _ => Triple.pure fun s start => start

theorem getCA_sound (documented : crypto.Documented) :
    Triple (fun s => Sound crypto s ∧ Readable env s) (getCA crypto env) (fun _ s => Sound crypto s ∧ Readable env s)
      (Sound crypto) := by
  -- with its material stored, the authority in memory is sound
  have taken : ∀ (s : State) (ca : CA) (m : CAMaterial), s.material = some m → authorityOf crypto m = some ca →
      Sound crypto { s with ca := some ca } ∧ Readable env { s with ca := some ca } := by
    intro s ca m material authority
    refine ⟨fun own same => ?_, .inr (.inl (Option.some_ne_none ca))⟩
    cases same
    exact ⟨m, material, authority⟩
  refine Triple.bind (Q := fun cached s => (Sound crypto s ∧ Readable env s) ∧ s.ca = cached)
    (Triple.attempt (Triple.read (fun ca s found start => ⟨start, found⟩) fun s missing start => ⟨start, missing⟩))
    fun cached => ?_
  cases cached with
  | some ca => exact Triple.pure fun s start => start.1
  | none =>
    refine Triple.bind (Q := fun stored s => ((Sound crypto s ∧ Readable env s) ∧ s.ca = none) ∧
        (if env.getCAMaterial then s.material else none) = stored)
      (Triple.attempt (Triple.read (fun m s found start => ⟨start, found⟩) fun s missing start => ⟨start, missing⟩))
      fun stored => ?_
    cases stored with
    | some m =>
      refine (fromMaterial_loads m).mono (fun s start => start) ?_ fun s start => start.1.1.1.1
      rintro ca t ⟨s, ⟨-, found⟩, rfl, authority⟩
      split at found
      · exact taken s ca m found authority
      · cases found
    | none =>
      have sound : ∀ s : State, s.ca = none → Sound crypto s := by
        intro s missing ca found
        rw [missing] at found
        cases found
      refine Triple.lift_bind (fun _ s start => start.1.1.1) fun ca made => ?_
      refine Triple.lift_bind (fun _ s start => start.1.1.1) fun enc closed => ?_
      have authority : authorityOf crypto ⟨ca.certPEM, enc, false⟩ = some ca := by
        rw [authorityOf, documented.opens _ _ _ closed]
        exact documented.reloads _ _ made
      refine Triple.bind (Q := fun _ s => s.material = some ⟨ca.certPEM, enc, false⟩)
        (Triple.write (fun s _ _ => rfl) (fun s _ start => start.1.1.1) fun s _ start => sound _ start.1.2) fun _ => ?_
      exact Triple.bind (Q := fun _ s => Sound crypto s ∧ Readable env s)
        (Triple.modify fun s start => taken s ca _ start authority) fun _ => Triple.pure fun s start => start

/-- Stored material that can be had is what a call works with. -/
structure Holds (crypto : Crypto) (env : Env) (m : CAMaterial) (s : State) : Prop where
  material : s.material = some m
  cached : ∀ ca, s.ca = some ca → authorityOf crypto m = some ca
  readable : s.ca ≠ none ∨ env.getCAMaterial = true

theorem getCA_agrees (m : CAMaterial) :
    Agrees (Holds crypto env m) (fun s => s.material = some m) (getCA crypto env) (fromMaterial crypto m) := by
  have same : ∀ s, Holds crypto env m s → (getCA crypto env).exec s = (fromMaterial crypto m).exec s := by
    rintro ⟨cached, material, clients, revoked, crlNumber, crl, ccd⟩ holds
    obtain rfl : material = some m := holds.material
    cases cached with
    | some ca =>
      obtain ⟨keyPEM, opened, loaded⟩ := Option.bind_eq_some_iff.mp (holds.cached ca rfl)
      simp only [fromMaterial, opened]
      rw [exec_bind]
      simp only [lift, loaded]
      rfl
    | none =>
      have reads : env.getCAMaterial = true := holds.readable.resolve_left fun missing => missing rfl
      simp only [getCA, reads]
      rfl
  refine ⟨same, fun s start => ?_⟩
  rw [same s start]
  refine (fromMaterial_loads m).mono (fun s start => start) ?_ (fun s start => start.1.material) s start
  rintro ca t ⟨s, holds, rfl, authority⟩
  refine ⟨holds.material, fun own same => ?_, .inl (Option.some_ne_none ca)⟩
  cases same
  exact authority

theorem sound_ofAuthority : OfAuthority (Sound crypto) := by
  intro s t ca material sound own found
  rw [material]
  exact sound own (ca ▸ found)

theorem readable_ofAuthority : OfAuthority (Readable env) := by
  intro s t ca material readable
  rwa [Readable, material, ca]

theorem holds_ofAuthority (m : CAMaterial) : OfAuthority (Holds crypto env m) := by
  intro s t ca material holds
  refine ⟨material.trans holds.material, fun own found => holds.cached own (ca ▸ found), ?_⟩
  rw [ca]
  exact holds.readable

theorem importCA_sound (documented : crypto.Documented) {s : State} (sound : Sound crypto s)
    (whole : env.saveCAMaterial ≠ .lost ∨ s.ca = none) (certPEM keyPEM : Text) :
    Sound crypto ((importCA crypto env certPEM keyPEM).exec s).2 := by
  have kept : ∀ t, t = s → Sound crypto t := by
    rintro t rfl
    exact sound
  have triple : Triple (· = s) (importCA crypto env certPEM keyPEM) (fun _ => Sound crypto) (Sound crypto) := by
    refine Triple.lift_bind (fun _ => kept) fun ca loaded => Triple.lift_bind (fun _ => kept) fun enc closed => ?_
    have authority : authorityOf crypto ⟨certPEM, enc, true⟩ = some ca := by
      rw [authorityOf, documented.opens _ _ _ closed]
      exact loaded
    refine Triple.bind (Q := fun _ t => t.material = some ⟨certPEM, enc, true⟩)
      (Triple.write (fun t _ _ => rfl) (fun t _ => kept t) ?_) fun _ => Triple.modify fun t material own same => ?_
    · rintro t lost rfl own found
      cases (whole.resolve_left fun reported => reported lost).symm.trans found
    · cases same
      exact ⟨_, material, authority⟩
  exact triple.state (fun _ _ sound => sound) rfl

theorem updatePeer_keeps (local' : OfAuthority I) (id : Text) : Keeps I (updatePeer env kind id) :=
  Keeps.bind (Keeps.read _) fun _ => storeClient_keeps local' _ _ _

/-- A steady call keeps the authority in memory and the stored one together. -/
theorem step_sound (documented : crypto.Documented) {s : State} {e : Op × Env} (sound : Sound crypto s)
    (steady : Steady s e) : Sound crypto (step crypto kind s e) := by
  obtain ⟨op, env⟩ := e
  have both : OfAuthority fun s => Sound crypto s ∧ Readable env s := fun s t ca material start =>
    ⟨sound_ofAuthority s t ca material start.1, readable_ofAuthority s t ca material start.2⟩
  have other : ∀ op, (∀ certPEM keyPEM, op ≠ .importCA certPEM keyPEM) → op ≠ .new → Readable env s →
      Sound crypto (step crypto kind s (op, env)) := by
    intro op other alive readable
    have agrees : Agrees _ _ (run crypto env kind op) _ :=
      runBy_agrees both (fun _ start => start.1) (.refl (getCA_sound documented)) other alive
    exact agrees.keeps.state (fun _ _ start => start.1) ⟨sound, readable⟩
  cases op with
  | importCA certPEM keyPEM => exact importCA_sound documented sound steady certPEM keyPEM
  | new =>
    intro ca found
    cases found
  | updatePeer id => exact (updatePeer_keeps sound_ofAuthority id).state (fun _ _ sound => sound) sound
  | _ => exact other _ (fun _ _ => by simp) (by simp) steady

/-- A steady call other than an import works with the stored authority. -/
theorem step_uses {s : State} {op : Op} {env : Env} {m : CAMaterial} (sound : Sound crypto s)
    (steady : Steady s (op, env)) (stored : s.material = some m)
    (other : ∀ certPEM keyPEM, op ≠ .importCA certPEM keyPEM) :
    (step crypto kind s (op, env)).material = some m ∧
      (run crypto env kind op).exec s = (runBy crypto env (fromMaterial crypto m) kind op).exec s := by
  have cached : ∀ ca, s.ca = some ca → authorityOf crypto m = some ca := by
    intro ca found
    obtain ⟨own, material, authority⟩ := sound ca found
    cases stored.symm.trans material
    exact authority
  have uses : ∀ op, (∀ certPEM keyPEM, op ≠ .importCA certPEM keyPEM) → op ≠ .new → Readable env s →
      (step crypto kind s (op, env)).material = some m ∧
        (run crypto env kind op).exec s = (runBy crypto env (fromMaterial crypto m) kind op).exec s := by
    intro op other alive readable
    have agrees : Agrees _ _ (run crypto env kind op) (runBy crypto env (fromMaterial crypto m) kind op) :=
      runBy_agrees (holds_ofAuthority m) (fun _ holds => holds.material) (getCA_agrees m) other alive
    have holds : Holds crypto env m s :=
      ⟨stored, cached, readable.resolve_left fun missing => Option.some_ne_none m (stored.symm.trans missing)⟩
    exact ⟨agrees.keeps.state (fun _ _ holds => holds.material) holds, agrees.same s holds⟩
  cases op with
  | importCA certPEM keyPEM => exact absurd rfl (other certPEM keyPEM)
  | new => exact ⟨stored, rfl⟩
  | updatePeer id =>
    have local' : OfAuthority fun s => s.material = some m := fun s t _ material stored => material.trans stored
    exact ⟨(updatePeer_keeps local' id).state (fun _ _ stored => stored) stored, rfl⟩
  | _ => exact uses _ other (by simp) steady

end

/-- In a run of steady calls, stored material changes by an import alone, and
any other call does what it would with that material's authority. -/
theorem stored_authority_used (crypto : Crypto) (documented : crypto.Documented) (kind : Kind) (start : State)
    (fresh : start.ca = none) (calls : List (Op × Env)) (op : Op) (env : Env)
    (steady : Run.Meets (step crypto kind) Steady start (calls ++ [(op, env)])) (m : CAMaterial)
    (stored : (Run.after (step crypto kind) start calls).material = some m)
    (other : ∀ certPEM keyPEM, op ≠ .importCA certPEM keyPEM) :
    (Run.after (step crypto kind) start (calls ++ [(op, env)])).material = some m ∧
      (run crypto env kind op).exec (Run.after (step crypto kind) start calls) =
        (runBy crypto env (fromMaterial crypto m) kind op).exec (Run.after (step crypto kind) start calls) := by
  obtain ⟨before, last, -⟩ := Run.Meets.append.mp steady
  have sound : Sound crypto start := by
    intro ca found
    cases fresh.symm.trans found
  have reached := before.invariant (Sound crypto) (fun s e sound steady => step_sound documented sound steady) sound
  rw [Run.after_concat]
  exact step_uses reached last stored other

theorem sampleCrypto_documented : sampleCrypto.Documented := by
  constructor
  · intro n text enc closed
    cases closed
    rfl
  · intro n ca made
    cases made
    simp [sampleCrypto]

/-- A client, a restart, and a second client. -/
theorem stored_authority_used_sample :
    (Run.after (step sampleCrypto .openvpn) State.initial
        [(.addPeer "alice".toList, { draw := 1 }), (.new, {}), (.addPeer "bob".toList, { draw := 2 })]).material =
      some ⟨"ca1".toList, "|key1".toList, false⟩ ∧
    (run sampleCrypto { draw := 2 } .openvpn (.addPeer "bob".toList)).exec (Run.after (step sampleCrypto .openvpn)
        State.initial [(.addPeer "alice".toList, { draw := 1 }), (.new, {})]) =
      (runBy sampleCrypto { draw := 2 } (fromMaterial sampleCrypto ⟨"ca1".toList, "|key1".toList, false⟩) .openvpn
        (.addPeer "bob".toList)).exec (Run.after (step sampleCrypto .openvpn) State.initial
          [(.addPeer "alice".toList, { draw := 1 }), (.new, {})]) :=
  stored_authority_used sampleCrypto sampleCrypto_documented .openvpn State.initial rfl
    [(.addPeer "alice".toList, { draw := 1 }), (.new, {})] (.addPeer "bob".toList) { draw := 2 }
    ⟨.inl rfl, trivial, .inr (.inr rfl), trivial⟩ ⟨"ca1".toList, "|key1".toList, false⟩ (by decide +kernel)
    (fun _ _ same => by cases same)

/-- The same with a failed read after the restart: another authority is stored,
and the call succeeds, under either provider. -/
theorem failed_read_replaces_authority :
    ((step sampleCrypto .openvpn (Run.after (step sampleCrypto .openvpn) State.initial
          [(.addPeer "alice".toList, { draw := 1 }), (.new, {})])
        (.addPeer "bob".toList, { draw := 2, getCAMaterial := false })).material =
        some ⟨"ca2".toList, "|key2".toList, false⟩ ∧
      ((run sampleCrypto { draw := 2, getCAMaterial := false } .openvpn (.addPeer "bob".toList)).exec
        (Run.after (step sampleCrypto .openvpn) State.initial
          [(.addPeer "alice".toList, { draw := 1 }), (.new, {})])).1 = some ()) ∧
    (step sampleCrypto .ikev2 (Run.after (step sampleCrypto .ikev2) State.initial
          [(.addPeer "alice".toList, { draw := 1 }), (.new, {})])
        (.addPeer "bob".toList, { draw := 2, getCAMaterial := false })).material =
        some ⟨"ca2".toList, "|key2".toList, false⟩ ∧
      ((run sampleCrypto { draw := 2, getCAMaterial := false } .ikev2 (.addPeer "bob".toList)).exec
        (Run.after (step sampleCrypto .ikev2) State.initial
          [(.addPeer "alice".toList, { draw := 1 }), (.new, {})])).1 = some () := by
  decide +kernel

end Protean.Cert
