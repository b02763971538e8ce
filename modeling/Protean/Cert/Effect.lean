import Protean.Cert.Provider

open Proc

namespace Protean.Cert

/-- The serial is among the recorded revocations. -/
def Recorded (s : State) (n : Int) : Prop := Text.itoa n ∈ s.revoked.map (·.serial)

/-- The serial is in the list last written to the host. -/
def Listed (s : State) (n : Int) : Prop := ∃ crl, s.crl = some crl ∧ n ∈ crl.entries.map Prod.fst

/-- The serial of the certificate that is stored for a name. -/
def held (crypto : Crypto) (s : State) (cn : Text) : Option Int :=
  (s.clients.get cn).bind fun row => crypto.serial row.certPEM

/-- The host's list has every recorded revocation. -/
def Full (s : State) : Prop := ∀ n, Recorded s n → Listed s n

/-- Only the authority and the number of the next list differ. -/
structure Kept (s₀ s : State) : Prop where
  clients : s.clients = s₀.clients
  revoked : s.revoked = s₀.revoked
  crl : s.crl = s₀.crl

/-- No revocation is lost. -/
structure Grown (s₀ s : State) : Prop where
  recorded : ∀ n, Recorded s₀ n → Recorded s n
  listed : ∀ n, Recorded s₀ n → Listed s₀ n → Listed s n

theorem Kept.refl (s : State) : Kept s s := ⟨rfl, rfl, rfl⟩

theorem Kept.grown {s₀ s : State} (kept : Kept s₀ s) : Grown s₀ s := by
  constructor
  · intro n recorded
    rwa [Recorded, kept.revoked]
  · intro n _ listed
    rwa [Listed, kept.crl]

section
variable {crypto : Crypto} {env : Env} {kind : Kind} {s₀ : State}

/-- What depends neither on the authority in memory nor on its row. -/
def IgnoresAuthority (I : State → Prop) : Prop :=
  ∀ ⦃s t : State⦄, t.clients = s.clients → t.revoked = s.revoked → t.crlNumber = s.crlNumber → t.crl = s.crl → I s → I t

variable {I : State → Prop}

theorem IgnoresAuthority.getCA (ignores : IgnoresAuthority I) : Keeps I (getCA crypto env) := by
  refine Keeps.bind (Keeps.attempt (Keeps.read _)) fun cached => ?_
  cases cached with
  | some ca => exact Keeps.pure ca
  | none =>
    refine Keeps.bind (Keeps.attempt (Keeps.read _)) fun stored => ?_
    cases stored with
    | some stored =>
      refine Keeps.bind (Keeps.lift _) fun keyPEM => Keeps.bind (Keeps.lift _) fun ca => ?_
      exact Keeps.bind (Keeps.modify fun s => ignores rfl rfl rfl rfl) fun _ => Keeps.pure ca
    | none =>
      refine Keeps.bind (Keeps.lift _) fun ca => Keeps.bind (Keeps.lift _) fun enc => ?_
      refine Keeps.bind (Keeps.write fun s => ignores rfl rfl rfl rfl) fun _ => ?_
      exact Keeps.bind (Keeps.modify fun s => ignores rfl rfl rfl rfl) fun _ => Keeps.pure ca

theorem IgnoresAuthority.importCA (ignores : IgnoresAuthority I) (certPEM keyPEM : Text) :
    Keeps I (importCA crypto env certPEM keyPEM) := by
  refine Keeps.bind (Keeps.lift _) fun ca => Keeps.bind (Keeps.lift _) fun enc => ?_
  refine Keeps.bind (Keeps.write fun s => ignores rfl rfl rfl rfl) fun _ => ?_
  exact Keeps.modify fun s => ignores rfl rfl rfl rfl

theorem kept_ignoresAuthority : IgnoresAuthority (Kept s₀) := fun _ _ clients revoked _ crl kept =>
  ⟨clients.trans kept.clients, revoked.trans kept.revoked, crl.trans kept.crl⟩

/-- Whatever becomes of the authority, the clients and the revocations stay. -/
theorem getCA_kept : Keeps (Kept s₀) (getCA crypto env) := kept_ignoresAuthority.getCA

variable {authority : Proc State CA}

/-- At most the one row differs. -/
structure Stored (s₀ : State) (cn certPEM : Text) (encKeyPEM : Option Text) (s : State) : Prop where
  revoked : s.revoked = s₀.revoked
  crl : s.crl = s₀.crl
  clients : s.clients = s₀.clients ∨
    ∃ key, encKeyPEM = some key ∧ s.clients = s₀.clients.upsert cn ⟨certPEM, key⟩

variable {s : State} {cn : Text}

theorem Kept.stored {certPEM : Text} {enc : Option Text} (kept : Kept s₀ s) :
    Stored s₀ cn certPEM enc s := ⟨kept.revoked, kept.crl, .inl kept.clients⟩

theorem storeClient_stored (cn certPEM : Text) (enc : Option Text) :
    Triple (Kept s₀) (storeClient env kind cn certPEM enc) (fun _ => Stored s₀ cn certPEM enc)
      (Stored s₀ cn certPEM enc) := by
  have save : Triple (Kept s₀) (saveClient env cn certPEM enc) (fun _ => Stored s₀ cn certPEM enc)
      (Stored s₀ cn certPEM enc) := by
    refine Triple.bind (Q := fun key s => Kept s₀ s ∧ enc = some key)
      (Triple.lift (fun key s same kept => ⟨kept, same⟩) fun s _ kept => kept.stored) fun key => ?_
    have updated : ∀ s, Kept s₀ s ∧ enc = some key → Stored s₀ cn certPEM enc
        { s with clients := s.clients.upsert cn ⟨certPEM, key⟩ } := by
      rintro s ⟨kept, same⟩
      exact ⟨kept.revoked, kept.crl, .inr ⟨key, same, by rw [← kept.clients]⟩⟩
    exact Triple.write (fun s _ => updated s) (fun s _ start => start.1.stored) fun s _ => updated s
  have file : Keeps (Kept s₀) (writeCCD env cn) := Keeps.write fun s kept => ⟨kept.clients, kept.revoked, kept.crl⟩
  refine Triple.bind ((Keeps.when file).leads fun s kept => kept.stored) fun _ => ?_
  exact Triple.bind save fun _ => Keeps.when (Keeps.guard _)

/-- A call that may have put one certificate under a name. -/
def Enrolled (s₀ : State) (cn : Text) (s : State) : Prop := ∃ certPEM enc, Stored s₀ cn certPEM enc s

theorem Kept.enrolled (kept : Kept s₀ s) : Enrolled s₀ cn s := ⟨[], none, kept.stored⟩

theorem addPeer_enrolled (keeps : Keeps (Kept s₀) authority) (name : Text) :
    Triple (Kept s₀) (addPeer crypto env authority kind name) (fun _ => Enrolled s₀ (Text.trimSpace name))
      (Enrolled s₀ (Text.trimSpace name)) := by
  have kept : ∀ s, Kept s₀ s → Enrolled s₀ (Text.trimSpace name) s := fun s kept => kept.enrolled
  refine Triple.bind ((Keeps.guard _).leads kept) fun _ => ?_
  refine Triple.bind (keeps.leads kept) fun ca => ?_
  refine Triple.bind ((Keeps.lift _).leads kept) fun creds => ?_
  refine Triple.bind ((Keeps.lift _).leads kept) fun enc => ?_
  refine Triple.bind ((Keeps.when (Keeps.guard _)).leads kept) fun _ => ?_
  exact (storeClient_stored _ creds.1 (some enc)).mono (fun _ start => start) (fun _ _ stored => ⟨_, _, stored⟩)
    fun _ stored => ⟨_, _, stored⟩

theorem addPeerFromCSR_enrolled (keeps : Keeps (Kept s₀) authority) (csrPEM name : Text) :
    Triple (Kept s₀) (addPeerFromCSR crypto env authority kind csrPEM name) (fun _ => Enrolled s₀ (Text.trimSpace name))
      (Enrolled s₀ (Text.trimSpace name)) := by
  have kept : ∀ s, Kept s₀ s → Enrolled s₀ (Text.trimSpace name) s := fun s kept => kept.enrolled
  refine Triple.bind ((Keeps.guard _).leads kept) fun _ => ?_
  refine Triple.bind (keeps.leads kept) fun ca => ?_
  refine Triple.bind ((Keeps.lift _).leads kept) fun certPEM => ?_
  exact (storeClient_stored _ certPEM none).mono (fun _ start => start) (fun _ _ stored => ⟨_, _, stored⟩)
    fun _ stored => ⟨_, _, stored⟩

/-- An import puts the certificate under the name that is in it. -/
def Imported (crypto : Crypto) (s₀ : State) (certPEM : Text) (s : State) : Prop :=
  Kept s₀ s ∨ ∃ cn enc, crypto.commonName certPEM = some cn ∧ Stored s₀ cn certPEM enc s

theorem importPeer_imported (keeps : Keeps (Kept s₀) authority) (certPEM keyPEM : Text) :
    Triple (Kept s₀) (importPeer crypto env authority kind certPEM keyPEM)
      (fun _ => Imported crypto s₀ (Text.trimSpace certPEM)) (Imported crypto s₀ (Text.trimSpace certPEM)) := by
  have kept : ∀ s, Kept s₀ s → Imported crypto s₀ (Text.trimSpace certPEM) s := fun s kept => .inl kept
  refine Triple.bind (keeps.leads kept) fun ca => ?_
  refine Triple.bind (Q := fun cn s => Kept s₀ s ∧ crypto.commonName (Text.trimSpace certPEM) = some cn)
    (Triple.lift (fun cn s verified start => ⟨start, ?_⟩) fun s _ => kept s) fun cn => ?_
  · exact (Option.filter_eq_some_iff.mp verified).1
  have store : ∀ enc, Triple (fun s => Kept s₀ s ∧ crypto.commonName (Text.trimSpace certPEM) = some cn)
      (storeClient env kind cn (Text.trimSpace certPEM) enc) (fun _ => Imported crypto s₀ (Text.trimSpace certPEM))
      (Imported crypto s₀ (Text.trimSpace certPEM)) := by
    intro enc s start
    have named := start.2
    exact (storeClient_stored _ _ enc).mono (fun _ start => start) (fun _ _ stored => .inr ⟨cn, enc, named, stored⟩)
      (fun _ stored => .inr ⟨cn, enc, named, stored⟩) s start.1
  split
  · exact store none
  · refine Triple.bind ((Keeps.guard _).leads fun s start => kept s start.1) fun _ => ?_
    refine Triple.bind ((Keeps.lift _).leads fun s start => kept s start.1) fun enc => ?_
    exact Triple.bind ((Keeps.when (Keeps.guard _)).leads fun s start => kept s start.1) fun _ => store (some enc)

/-- An update writes the row it has read. -/
theorem updatePeer_kept (id : Text) :
    Triple (· = s₀) (updatePeer env kind id) (fun _ => Kept s₀) (Kept s₀) := by
  refine Triple.bind (Q := fun row s => Kept s₀ s ∧ s₀.clients.get id = some row) (Triple.read ?_ ?_) fun row => ?_
  · rintro row s found rfl
    refine ⟨Kept.refl s, ?_⟩
    split at found
    · exact found
    · cases found
  · rintro s - rfl
    exact Kept.refl s
  · intro s start
    have same : ∀ t, Stored s₀ id row.certPEM (some row.encKeyPEM) t → Kept s₀ t := by
      intro t stored
      refine ⟨?_, stored.revoked, stored.crl⟩
      rcases stored.clients with same | ⟨key, own, updated⟩
      · exact same
      · cases Option.some.inj own
        rw [updated]
        exact KeyTable.upsert_of_get start.2
    exact (storeClient_stored id row.certPEM (some row.encKeyPEM)).mono (fun _ start => start)
      (fun _ t => same t) same s start.1

theorem crlEntries_complete {rows : List RevokedCertRow} {n : Int} (recorded : Text.itoa n ∈ rows.map (·.serial)) :
    n ∈ (crlEntries rows).map Prod.fst := by
  obtain ⟨row, member, serial⟩ := List.mem_map.mp recorded
  have entry : (n, row.revokedAt) ∈ crlEntries rows := by
    refine List.mem_filterMap.mpr ⟨row, member, ?_⟩
    rw [serial, Text.readSigned_itoa]
    rfl
  exact List.mem_map.mpr ⟨_, entry, rfl⟩

theorem clientConfigFile_kept (keeps : Keeps (Kept s₀) authority) (id : Text) :
    Keeps (Kept s₀) (clientConfigFile crypto env authority kind id) := by
  refine Keeps.bind keeps fun ca => Keeps.bind (Keeps.read _) fun row => ?_
  split
  · exact Keeps.pure _
  · exact Keeps.bind (Keeps.lift _) fun keyPEM => Keeps.bind (Keeps.when (Keeps.guard _)) fun _ => Keeps.pure _

theorem keeps_clientProfile (keeps : Keeps I authority) (id format : Text) :
    Keeps I (clientProfile crypto env authority kind id format) := by
  refine Keeps.bind (Keeps.guard _) fun _ => Keeps.bind keeps fun ca => Keeps.bind (Keeps.read _) fun row => ?_
  refine Keeps.bind (Keeps.guard _) fun _ => Keeps.bind (Keeps.lift _) fun keyPEM => ?_
  exact Keeps.bind (Keeps.guard _) fun _ => Keeps.bind (Keeps.guard _) fun _ => Keeps.pure _

/-- The list on the host has been brought up to date. -/
structure Rebuilt (s₀ s : State) : Prop where
  clients : s.clients = s₀.clients
  revoked : s.revoked = s₀.revoked
  full : Full s

theorem Rebuilt.grown (rebuilt : Rebuilt s₀ s) : Grown s₀ s := by
  have recorded : ∀ n, Recorded s₀ n → Recorded s n := by
    intro n recorded
    rwa [Recorded, rebuilt.revoked]
  exact ⟨recorded, fun n known _ => rebuilt.full n (recorded n known)⟩

theorem rebuildCRL_rebuilt (ca : CA) :
    Triple (Kept s₀) (rebuildCRL env ca) (fun _ => Rebuilt s₀) (fun s => Kept s₀ s ∨ Rebuilt s₀ s) := by
  have kept : ∀ s, Kept s₀ s → Kept s₀ s ∨ Rebuilt s₀ s := fun s kept => .inl kept
  refine Triple.bind (Q := fun rows s => Kept s₀ s ∧ rows = s₀.revoked) (Triple.read ?_ fun s _ => kept s) fun rows => ?_
  · intro rows s found start
    split at found
    · exact ⟨start, (Option.some.inj found).symm.trans start.revoked⟩
    · cases found
  have number : Keeps (fun s => Kept s₀ s ∧ rows = s₀.revoked) (nextCRLNumber env) := by
    refine Keeps.bind (Keeps.write fun s start => ?_) fun _ => Keeps.read _
    exact ⟨⟨start.1.clients, start.1.revoked, start.1.crl⟩, start.2⟩
  refine Triple.bind (number.leads fun s start => kept s start.1) fun number => ?_
  refine Triple.bind ((Keeps.guard _).leads fun s start => kept s start.1) fun _ => ?_
  have written : ∀ s, Kept s₀ s ∧ rows = s₀.revoked → Rebuilt s₀ { s with crl := some ⟨ca, crlEntries rows, number⟩ } := by
    rintro s ⟨start, rfl⟩
    refine ⟨start.clients, start.revoked, fun n recorded => ⟨_, rfl, ?_⟩⟩
    rw [Recorded, start.revoked] at recorded
    exact crlEntries_complete recorded
  exact Triple.write (fun s _ => written s) (fun s _ start => kept s start.1) fun s _ start => .inr (written s start)

/-- One more serial is on record. -/
structure Noted (s₀ : State) (n : Int) (s : State) : Prop where
  clients : s.clients = s₀.clients
  crl : s.crl = s₀.crl
  recorded : ∀ m, Recorded s₀ m → Recorded s m
  new : Recorded s n

theorem addRevokedCert_noted (n : Int) (cn : Text) :
    Triple (· = s₀) (addRevokedCert env (Text.itoa n) cn) (fun _ => Noted s₀ n) (fun s => s = s₀ ∨ Noted s₀ n s) := by
  have noted : ∀ s, s = s₀ → Noted s₀ n (if Text.itoa n ∈ s.revoked.map (·.serial) then s
      else { s with revoked := s.revoked ++ [⟨Text.itoa n, cn, env.now⟩] }) := by
    rintro s rfl
    split
    · rename_i present
      exact ⟨rfl, rfl, fun m recorded => recorded, present⟩
    · refine ⟨rfl, rfl, fun m recorded => ?_, ?_⟩
      · rw [Recorded, List.map_append]
        exact List.mem_append_left _ recorded
      · rw [Recorded, List.map_append]
        exact List.mem_append_right _ (List.mem_singleton.mpr rfl)
  exact Triple.write (fun s _ => noted s) (fun s _ same => .inl same) fun s _ same => .inr (noted s same)

variable {t : State}

theorem Noted.grown {n : Int} (noted : Noted s₀ n s) (later : Kept s t ∨ Rebuilt s t) : Grown s₀ t := by
  constructor
  · intro m recorded
    have first := noted.recorded m recorded
    rcases later with kept | rebuilt
    · rwa [Recorded, kept.revoked]
    · rwa [Recorded, rebuilt.revoked]
  · intro m recorded listed
    have first := noted.recorded m recorded
    rcases later with kept | rebuilt
    · rwa [Listed, kept.crl, noted.crl]
    · refine rebuilt.full m ?_
      rwa [Recorded, rebuilt.revoked]

/-- The row the revocation gets to see. -/
def visible (env : Env) (s : State) (cn : Text) : Option Client := if env.getClient then s.clients.get cn else none

/-- Everything on record is on the host, the name's own serial with it. -/
structure Revoked (crypto : Crypto) (s₀ : State) (cn : Text) (s : State) : Prop where
  grown : Grown s₀ s
  recorded : ∀ n, held crypto s₀ cn = some n → Recorded s n
  full : Full s

theorem revoke_revoked (keeps : ∀ s, Keeps (Kept s) authority) (cn : Text) :
    Triple (· = s₀) (revoke crypto env authority cn)
      (fun _ s => s.clients = s₀.clients ∧ Grown s₀ s ∧ (visible env s₀ cn = none ∨ Revoked crypto s₀ cn s))
      (fun s => s.clients = s₀.clients ∧ Grown s₀ s) := by
  refine Triple.bind (Q := fun o s => s = s₀ ∧ visible env s₀ cn = o) (Triple.attempt (Triple.read ?_ ?_)) fun o => ?_
  · rintro row s found rfl
    exact ⟨rfl, found⟩
  · rintro s missing rfl
    exact ⟨rfl, missing⟩
  cases o with
  | none =>
    refine Triple.pure ?_
    rintro s ⟨rfl, missing⟩
    exact ⟨rfl, (Kept.refl s).grown, .inl missing⟩
  | some row =>
    have unchanged : ∀ s, s = s₀ → s.clients = s₀.clients ∧ Grown s₀ s := by
      rintro s rfl
      exact ⟨rfl, (Kept.refl s).grown⟩
    refine Triple.bind (Q := fun n s => s = s₀ ∧ held crypto s₀ cn = some n)
      (Triple.lift (fun n s serial start => ⟨start.1, ?_⟩) fun s _ start => unchanged s start.1) fun n => ?_
    · have seen := start.2
      unfold visible at seen
      split at seen
      · rw [held, seen]
        exact serial
      · cases seen
    intro s start
    obtain ⟨rfl, own⟩ := start
    have write := @addRevokedCert_noted env s n cn
    refine Triple.bind (write.mono (fun _ same => same) (fun _ _ noted => noted) ?_) (fun _ t noted => ?_) s rfl
    · rintro t (same | noted)
      · exact unchanged t same
      · exact ⟨noted.clients, noted.grown (.inl (Kept.refl t))⟩
    have grown : ∀ u, Kept t u ∨ Rebuilt t u → u.clients = s.clients ∧ Grown s u := by
      intro u later
      refine ⟨?_, noted.grown later⟩
      rcases later with kept | rebuilt
      · exact kept.clients.trans noted.clients
      · exact rebuilt.clients.trans noted.clients
    have rest : Triple (Kept t) (authority >>= fun ca => rebuildCRL env ca) (fun _ => Rebuilt t)
        (fun u => Kept t u ∨ Rebuilt t u) :=
      Triple.bind ((keeps t).leads fun _ kept => .inl kept) rebuildCRL_rebuilt
    refine rest.mono (fun _ start => start) (fun _ u rebuilt => ?_) grown t (Kept.refl t)
    obtain ⟨clients, grownAll⟩ := grown u (.inr rebuilt)
    refine ⟨clients, grownAll, .inr ⟨grownAll, fun m same => ?_, rebuilt.full⟩⟩
    rw [own] at same
    cases same
    rw [Recorded, rebuilt.revoked]
    exact noted.new

/-- The row is gone, and what could be seen of it is revoked. -/
structure Removed (crypto : Crypto) (env : Env) (s₀ : State) (id : Text) (s : State) : Prop where
  clients : s.clients = s₀.clients.delete id
  grown : Grown s₀ s
  revoked : visible env s₀ id = none ∨ Revoked crypto s₀ id s

theorem Grown.of_same (grown : Grown s₀ s) (revoked : t.revoked = s.revoked) (crl : t.crl = s.crl) : Grown s₀ t := by
  constructor
  · intro n recorded
    rw [Recorded, revoked]
    exact grown.recorded n recorded
  · intro n recorded listed
    rw [Listed, crl]
    exact grown.listed n recorded listed

theorem Revoked.of_same (old : Revoked crypto s₀ cn s) (revoked : t.revoked = s.revoked) (crl : t.crl = s.crl) :
    Revoked crypto s₀ cn t := by
  refine ⟨old.grown.of_same revoked crl, fun n own => ?_, fun n recorded => ?_⟩
  · rw [Recorded, revoked]
    exact old.recorded n own
  · rw [Recorded, revoked] at recorded
    rw [Listed, crl]
    exact old.full n recorded

theorem removePeer_removed (keeps : ∀ s, Keeps (Kept s) authority) (id : Text) :
    Triple (· = s₀) (removePeer crypto env authority kind id) (fun _ => Removed crypto env s₀ id)
      (fun s => Removed crypto env s₀ id s ∨ s.clients = s₀.clients ∧ Grown s₀ s) := by
  refine Triple.bind ((revoke_revoked keeps id).mono (fun _ same => same) (fun _ _ revoked => revoked)
      fun s kept => .inr kept)
    fun _ => ?_
  have file : Keeps (fun s => s.clients = s₀.clients ∧ Grown s₀ s ∧
      (visible env s₀ id = none ∨ Revoked crypto s₀ id s)) (removeCCD env id) := by
    refine Keeps.bind (Keeps.attempt (Keeps.write ?_)) fun _ => Keeps.pure ()
    rintro s ⟨clients, grown, revoked⟩
    exact ⟨clients, grown.of_same rfl rfl, revoked.imp_right fun revoked => revoked.of_same rfl rfl⟩
  refine Triple.bind ((Keeps.when file).leads fun s kept => .inr ⟨kept.1, kept.2.1⟩) fun _ => ?_
  have deleted : ∀ s : State, s.clients = s₀.clients ∧ Grown s₀ s ∧
      (visible env s₀ id = none ∨ Revoked crypto s₀ id s) →
      Removed crypto env s₀ id { s with clients := s.clients.delete id } := by
    rintro s ⟨clients, grown, revoked⟩
    exact ⟨by rw [← clients], grown.of_same rfl rfl, revoked.imp_right fun revoked => revoked.of_same rfl rfl⟩
  refine Triple.bind (Q := fun _ => Removed crypto env s₀ id) (Triple.write
    (fun s _ => deleted s) (fun s _ start => .inr ⟨start.1, start.2.1⟩) fun s _ start => .inl (deleted s start)) fun _ => ?_
  exact (Keeps.when (Keeps.guard _)).leads fun s removed => .inl removed

end

end Protean.Cert
