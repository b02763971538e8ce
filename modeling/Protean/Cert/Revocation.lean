import Protean.Cert.Effect
import Protean.Run

open Proc

namespace Protean.Cert

/-- Some call has left a certificate with this serial under the name. -/
def EverStored (crypto : Crypto) (kind : Kind) (start : State) (calls : List (Op × Env)) (cn : Text) (n : Int) : Prop :=
  ∃ early, early <+: calls ∧ held crypto (Run.after (step crypto kind) start early) cn = some n

/-- A new certificate for the name puts none out of sight: none is stored, or
the one that is has been revoked. -/
def Settled (crypto : Crypto) (s : State) (cn : Text) : Prop := ∀ n, held crypto s cn = some n → Recorded s n

/-- What a call must not do: enrol over a certificate that is still good, or
take a failed read of a client for a missing one. -/
def Careful (crypto : Crypto) (s : State) (e : Op × Env) : Prop :=
  match e.1 with
  | .addPeer name => Settled crypto s (Text.trimSpace name)
  | .addPeerFromCSR _ name => Settled crypto s (Text.trimSpace name)
  | .importPeer certPEM _ => ∀ cn, crypto.commonName (Text.trimSpace certPEM) = some cn →
      Settled crypto s cn ∨ held crypto s cn = crypto.serial (Text.trimSpace certPEM)
  | .removePeer id => e.2.getClient = true ∨ s.clients.get id = none
  | _ => True

/-- Each serial of a name is on record or still stored, and those of a name
without a row are on the host. -/
structure Covered (crypto : Crypto) (stored : Text → Int → Prop) (s : State) : Prop where
  known : ∀ cn n, stored cn n → Recorded s n ∨ held crypto s cn = some n
  gone : ∀ cn n, stored cn n → s.clients.get cn = none → Recorded s n ∧ Listed s n

section
variable {crypto : Crypto} {env : Env} {kind : Kind} {stored : Text → Int → Prop} {s t : State}

theorem held_congr (same : t.clients = s.clients) (cn : Text) : held crypto t cn = held crypto s cn := by
  rw [held, held, same]

/-- The serials the new state adds are the ones it holds. -/
theorem Covered.extend (covered : Covered crypto stored s) :
    Covered crypto (fun cn n => stored cn n ∨ held crypto s cn = some n) s := by
  refine ⟨fun cn n known => ?_, fun cn n known missing => ?_⟩
  · exact known.elim (covered.known cn n) .inr
  · refine known.elim (fun known => covered.gone cn n known missing) fun holds => ?_
    rw [held, missing] at holds
    cases holds

theorem Covered.grow (covered : Covered crypto stored s) (clients : t.clients = s.clients) (grown : Grown s t) :
    Covered crypto stored t := by
  refine ⟨fun cn n known => ?_, fun cn n known missing => ?_⟩
  · rw [held_congr clients]
    exact (covered.known cn n known).imp_left (grown.recorded n)
  · rw [clients] at missing
    obtain ⟨recorded, listed⟩ := covered.gone cn n known missing
    exact ⟨grown.recorded n recorded, grown.listed n recorded listed⟩

/-- A new row hides nothing when the old one is settled or has its serial. -/
theorem Covered.store (covered : Covered crypto stored s) {cn certPEM : Text} {enc : Option Text}
    (safe : Settled crypto s cn ∨ held crypto s cn = crypto.serial certPEM) (row : Stored s cn certPEM enc t) :
    Covered crypto stored t := by
  have recorded : ∀ n, Recorded s n → Recorded t n := fun n recorded => by rwa [Recorded, row.revoked]
  have listed : ∀ n, Listed s n → Listed t n := fun n listed => by rwa [Listed, row.crl]
  rcases row.clients with same | ⟨key, -, updated⟩
  · exact covered.grow same ⟨recorded, fun n _ => listed n⟩
  · refine ⟨fun cn' n known => ?_, fun cn' n known missing => ?_⟩
    · by_cases own : cn' = cn
      · subst own
        have now : held crypto t cn' = crypto.serial certPEM := by simp [held, updated]
        rw [now]
        rcases covered.known cn' n known with old | old
        · exact .inl (recorded n old)
        · rcases safe with settled | same
          · exact .inl (recorded n (settled n old))
          · exact .inr (same.symm.trans old)
      · have other : held crypto t cn' = held crypto s cn' := by
          rw [held, held, updated, KeyTable.get_upsert_of_ne _ _ own]
        rw [other]
        exact (covered.known cn' n known).imp_left (recorded n)
    · by_cases own : cn' = cn
      · subst own
        simp [updated] at missing
      · rw [updated, KeyTable.get_upsert_of_ne _ _ own] at missing
        obtain ⟨old, onHost⟩ := covered.gone cn' n known missing
        exact ⟨recorded n old, listed n onHost⟩

theorem Covered.remove (covered : Covered crypto stored s) {id : Text}
    (readable : env.getClient = true ∨ s.clients.get id = none) (removed : Removed crypto env s id t) :
    Covered crypto stored t := by
  -- the name's own serials: on record now, and on the host
  have own : ∀ n, stored id n → Recorded t n ∧ Listed t n := by
    intro n known
    rcases removed.revoked with missing | revoked
    · have none' : s.clients.get id = none := by
        rcases readable with works | none'
        · rwa [visible, if_pos works] at missing
        · exact none'
      obtain ⟨old, onHost⟩ := covered.gone id n known none'
      exact ⟨removed.grown.recorded n old, removed.grown.listed n old onHost⟩
    · have recorded : Recorded t n := by
        rcases covered.known id n known with old | holds
        · exact removed.grown.recorded n old
        · exact revoked.recorded n holds
      exact ⟨recorded, revoked.full n recorded⟩
  refine ⟨fun cn n known => ?_, fun cn n known missing => ?_⟩
  · by_cases same : cn = id
    · subst same
      exact .inl (own n known).1
    · have other : held crypto t cn = held crypto s cn := by
        rw [held, held, removed.clients, KeyTable.get_delete_of_ne _ same]
      rw [other]
      exact (covered.known cn n known).imp_left (removed.grown.recorded n)
  · by_cases same : cn = id
    · subst same
      exact own n known
    · rw [removed.clients, KeyTable.get_delete_of_ne _ same] at missing
      obtain ⟨old, onHost⟩ := covered.gone cn n known missing
      exact ⟨removed.grown.recorded n old, removed.grown.listed n old onHost⟩

theorem rebuild_rebuilt :
    Triple (Kept s) (rebuild env (getCA crypto env)) (fun _ => Rebuilt s) (fun t => Kept s t ∨ Rebuilt s t) :=
  Triple.bind (getCA_kept.leads fun _ kept => .inl kept) rebuildCRL_rebuilt

theorem ensureServer_rebuilt :
    Triple (Kept s) (ensureServer crypto env (getCA crypto env)) (fun _ => Rebuilt s)
      (fun t => Kept s t ∨ Rebuilt s t) := by
  refine Triple.bind (getCA_kept.leads fun _ kept => .inl kept) fun ca => ?_
  refine Triple.bind ((Keeps.lift _).leads fun _ kept => .inl kept) fun _ => ?_
  refine Triple.bind ((Keeps.guard _).leads fun _ kept => .inl kept) fun _ => ?_
  exact Triple.bind (rebuildCRL_rebuilt ca) fun _ => (Keeps.guard _).leads fun _ rebuilt => .inr rebuilt

/-- A careful call leaves no serial behind. -/
theorem step_covered {e : Op × Env} (covered : Covered crypto stored s) (careful : Careful crypto s e) :
    Covered crypto stored (step crypto kind s e) := by
  obtain ⟨op, env⟩ := e
  cases op with
  | addPeer name =>
    obtain ⟨certPEM, enc, row⟩ := (addPeer_enrolled getCA_kept name).state (fun _ _ enrolled => enrolled) (Kept.refl s)
    exact covered.store (.inl careful) row
  | addPeerFromCSR csrPEM name =>
    obtain ⟨certPEM, enc, row⟩ :=
      (addPeerFromCSR_enrolled getCA_kept csrPEM name).state (fun _ _ enrolled => enrolled) (Kept.refl s)
    exact covered.store (.inl careful) row
  | importPeer certPEM keyPEM =>
    have imported : Imported crypto s (Text.trimSpace certPEM) (step crypto kind s (.importPeer certPEM keyPEM, env)) :=
      (importPeer_imported getCA_kept certPEM keyPEM).state (fun _ _ imported => imported) (Kept.refl s)
    rcases imported with kept | ⟨cn, enc, named, row⟩
    · exact covered.grow kept.clients kept.grown
    · exact covered.store (careful cn named) row
  | updatePeer id =>
    have kept : Kept s (step crypto kind s (.updatePeer id, env)) :=
      (updatePeer_kept id).state (fun _ _ kept => kept) rfl
    exact covered.grow kept.clients kept.grown
  | removePeer id =>
    rcases (removePeer_removed (fun _ => getCA_kept) id).state (fun _ _ removed => .inl removed) rfl
      with removed | ⟨clients, grown⟩
    · exact covered.remove careful removed
    · exact covered.grow clients grown
  | rebuildCRL =>
    rcases rebuild_rebuilt.state (fun _ _ rebuilt => .inr rebuilt) (Kept.refl s) with kept | rebuilt
    · exact covered.grow kept.clients kept.grown
    · exact covered.grow rebuilt.clients rebuilt.grown
  | clientConfigFile id =>
    have kept : Kept s (step crypto kind s (.clientConfigFile id, env)) :=
      (Keeps.bind (clientConfigFile_kept getCA_kept id) fun _ => Keeps.pure ()).state (fun _ _ kept => kept) (Kept.refl s)
    exact covered.grow kept.clients kept.grown
  | clientProfile id format =>
    have kept : Kept s (step crypto kind s (.clientProfile id format, env)) :=
      (Keeps.bind (keeps_clientProfile getCA_kept id format) fun _ => Keeps.pure ()).state
        (fun _ _ kept => kept) (Kept.refl s)
    exact covered.grow kept.clients kept.grown
  | ensureServer =>
    rcases ensureServer_rebuilt.state (fun _ _ rebuilt => .inr rebuilt) (Kept.refl s) with kept | rebuilt
    · exact covered.grow kept.clients kept.grown
    · exact covered.grow rebuilt.clients rebuilt.grown
  | importCA certPEM keyPEM =>
    have kept : Kept s (step crypto kind s (.importCA certPEM keyPEM, env)) :=
      (kept_ignoresAuthority.importCA certPEM keyPEM).state (fun _ _ kept => kept) (Kept.refl s)
    exact covered.grow kept.clients kept.grown
  | new => exact covered.grow rfl (Kept.grown ⟨rfl, rfl, rfl⟩)

theorem everStored_concat {start : State} {calls : List (Op × Env)} {e : Op × Env} {cn : Text} {n : Int}
    (ever : EverStored crypto kind start (calls ++ [e]) cn n) :
    EverStored crypto kind start calls cn n ∨
      held crypto (Run.after (step crypto kind) start (calls ++ [e])) cn = some n := by
  obtain ⟨early, initial, holds⟩ := ever
  rcases List.prefix_concat_iff.mp initial with rfl | before
  · exact .inr holds
  · exact .inl ⟨early, before, holds⟩

/-- A run of careful calls leaves no serial behind. -/
theorem run_covered {start : State} (empty : ∀ cn, start.clients.get cn = none) {calls : List (Op × Env)}
    (careful : Run.Meets (step crypto kind) (Careful crypto) start calls) :
    Covered crypto (EverStored crypto kind start calls) (Run.after (step crypto kind) start calls) := by
  induction calls using List.reverseRecOn with
  | nil =>
    have never : ∀ cn n, ¬EverStored crypto kind start [] cn n := by
      rintro cn n ⟨early, initial, holds⟩
      rw [List.prefix_nil.mp initial, Run.after_nil, held, empty cn] at holds
      cases holds
    exact ⟨fun cn n ever => absurd ever (never cn n), fun cn n ever => absurd ever (never cn n)⟩
  | append_singleton calls e ih =>
    obtain ⟨before, last, -⟩ := Run.Meets.append.mp careful
    have covered := (step_covered (ih before) last : Covered crypto _ (step crypto kind _ e)).extend
    have last' : step crypto kind (Run.after (step crypto kind) start calls) e =
        Run.after (step crypto kind) start (calls ++ [e]) := (Run.after_concat calls e).symm
    rw [last'] at covered
    exact ⟨fun cn n ever => covered.known cn n (everStored_concat ever),
      fun cn n ever => covered.gone cn n (everStored_concat ever)⟩

end

/-- In a run of careful calls, a removal that returns without an error has
revoked every certificate that was ever stored for the name. -/
theorem removal_revokes_all (crypto : Crypto) (kind : Kind) (start : State) (empty : ∀ cn, start.clients.get cn = none)
    (calls : List (Op × Env)) (id : Text) (env : Env)
    (careful : Run.Meets (step crypto kind) (Careful crypto) start (calls ++ [(.removePeer id, env)]))
    (removed : ((run crypto env kind (.removePeer id)).exec (Run.after (step crypto kind) start calls)).1 = some ())
    (n : Int) (ever : EverStored crypto kind start calls id n) :
    Recorded (Run.after (step crypto kind) start (calls ++ [(.removePeer id, env)])) n ∧
      Listed (Run.after (step crypto kind) start (calls ++ [(.removePeer id, env)])) n := by
  have covered := run_covered empty careful
  have gone : (Run.after (step crypto kind) start (calls ++ [(.removePeer id, env)])).clients.get id = none := by
    have answer := (removePeer_removed (fun _ => getCA_kept) id).answer rfl removed
    rw [Run.after_concat]
    exact answer.clients ▸ KeyTable.get_delete_self ..
  obtain ⟨early, initial, holds⟩ := ever
  exact covered.gone id n ⟨early, initial.trans (List.prefix_append _ _), holds⟩ gone

/-- Two clients, one of them changed and then removed. -/
def sampleCalls : List (Op × Env) :=
  [(.addPeer "alice".toList, { draw := 1 }), (.updatePeer "alice".toList, { draw := 2 }),
    (.addPeer "bob".toList, { draw := 3 })]

theorem removal_revokes_all_sample :
    Recorded (Run.after (step sampleCrypto .openvpn) State.initial
        (sampleCalls ++ [(.removePeer "alice".toList, { draw := 4 })])) 1 ∧
      Listed (Run.after (step sampleCrypto .openvpn) State.initial
        (sampleCalls ++ [(.removePeer "alice".toList, { draw := 4 })])) 1 := by
  refine removal_revokes_all sampleCrypto .openvpn State.initial (fun _ => rfl) sampleCalls "alice".toList { draw := 4 }
    ⟨?_, trivial, ?_, .inl rfl, trivial⟩ (by decide +kernel) 1 ⟨sampleCalls, List.prefix_rfl, by decide +kernel⟩
  · intro n holds
    cases holds
  · intro n holds
    have missing : held sampleCrypto (Run.after (step sampleCrypto .openvpn) State.initial (sampleCalls.take 2))
        "bob".toList = none := by decide +kernel
    cases missing.symm.trans holds

/-- The removal returns without an error, and a certificate of the name is not
even on record. -/
def Forgotten (crypto : Crypto) (kind : Kind) (calls : List (Op × Env)) (id : Text) (env : Env) (n : Int) : Prop :=
  EverStored crypto kind State.initial calls id n ∧
    ((run crypto env kind (.removePeer id)).exec (Run.after (step crypto kind) State.initial calls)).1 = some () ∧
    ¬Recorded (Run.after (step crypto kind) State.initial (calls ++ [(.removePeer id, env)])) n

/-- A second certificate for a name that has one, and a read of the row that
fails, under either provider. -/
theorem removal_forgets_certificate :
    (Forgotten sampleCrypto .openvpn
        [(.addPeer "alice".toList, { draw := 1 }), (.addPeer "alice".toList, { draw := 2 })] "alice".toList {} 1 ∧
      Forgotten sampleCrypto .ikev2
        [(.addPeer "alice".toList, { draw := 1 }), (.addPeer "alice".toList, { draw := 2 })] "alice".toList {} 1) ∧
    Forgotten sampleCrypto .openvpn [(.addPeer "alice".toList, { draw := 1 })] "alice".toList { getClient := false } 1 ∧
      Forgotten sampleCrypto .ikev2 [(.addPeer "alice".toList, { draw := 1 })] "alice".toList { getClient := false } 1 := by
  refine ⟨⟨⟨⟨[_], ⟨_, rfl⟩, ?_⟩, ?_, ?_⟩, ⟨[_], ⟨_, rfl⟩, ?_⟩, ?_, ?_⟩, ⟨⟨[_], ⟨_, rfl⟩, ?_⟩, ?_, ?_⟩,
    ⟨[_], ⟨_, rfl⟩, ?_⟩, ?_, ?_⟩ <;> first | decide +kernel | (unfold Recorded; decide +kernel)

end Protean.Cert
