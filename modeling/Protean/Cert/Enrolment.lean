import Protean.Cert.Authority

open Proc

namespace Protean.Cert

/-- The authority that a call gets from `getCA`. -/
def authorityIn (crypto : Crypto) (env : Env) (s : State) : Option CA :=
  match s.ca with
  | some ca => some ca
  | none =>
    match if env.getCAMaterial then s.material else none with
    | some m => authorityOf crypto m
    | none => do
      let ca ← crypto.newInternalCA env.draw
      let _ ← crypto.sealText env.draw ca.keyPEM
      if env.saveCAMaterial = .ok then some ca else none

/-- What an enrolment sets out to store. -/
structure Request where
  cn : Text
  certPEM : Text
  encKeyPEM : Option Text
  deriving DecidableEq, Repr

/-- The request of an enrolment whose name, certificate and key are in order. -/
def request (crypto : Crypto) (env : Env) (s : State) : Op → Option Request
  | .addPeer name =>
    if Text.trimSpace name = [] then none
    else do
      let ca ← authorityIn crypto env s
      let (certPEM, keyPEM) ← crypto.issue ca (Text.trimSpace name) env.draw
      let enc ← crypto.sealText env.draw keyPEM
      some ⟨Text.trimSpace name, certPEM, some enc⟩
  | .addPeerFromCSR csrPEM name =>
    if Text.trimSpace name = [] then none
    else do
      let ca ← authorityIn crypto env s
      let certPEM ← crypto.signCSR ca csrPEM (Text.trimSpace name) env.draw
      some ⟨Text.trimSpace name, certPEM, none⟩
  | .importPeer certPEM keyPEM => do
    let ca ← authorityIn crypto env s
    let cn ← verifyClientCert crypto ca (Text.trimSpace certPEM)
    if Text.trimSpace keyPEM = [] then some ⟨cn, Text.trimSpace certPEM, none⟩
    else if crypto.matchesPrivateKey (Text.trimSpace certPEM) (Text.trimSpace keyPEM) then do
      let enc ← crypto.sealText env.draw (Text.trimSpace keyPEM)
      some ⟨cn, Text.trimSpace certPEM, some enc⟩
    else none
  | _ => none

def Op.enrols : Op → Bool
  | .addPeer _ | .addPeerFromCSR _ _ | .importPeer _ _ => true
  | _ => false

/-- The name an enrolment is for. -/
def enrolled (crypto : Crypto) : Op → Option Text
  | .addPeer name => some (Text.trimSpace name)
  | .addPeerFromCSR _ name => some (Text.trimSpace name)
  | .importPeer certPEM _ => crypto.commonName (Text.trimSpace certPEM)
  | _ => none

theorem enrolled_of_request {crypto : Crypto} {env : Env} {s : State} {op : Op} {r : Request}
    (same : request crypto env s op = some r) : enrolled crypto op = some r.cn := by
  cases op with
  | addPeer name =>
    simp only [request] at same
    split at same
    · cases same
    · simp only [Option.bind_eq_bind, Option.bind_eq_some_iff] at same
      obtain ⟨ca, -, creds, -, enc, -, same⟩ := same
      cases same
      rfl
  | addPeerFromCSR csrPEM name =>
    simp only [request] at same
    split at same
    · cases same
    · simp only [Option.bind_eq_bind, Option.bind_eq_some_iff] at same
      obtain ⟨ca, -, certPEM, -, same⟩ := same
      cases same
      rfl
  | importPeer certPEM keyPEM =>
    simp only [request, Option.bind_eq_bind, Option.bind_eq_some_iff] at same
    obtain ⟨ca, -, cn, verified, same⟩ := same
    have named : crypto.commonName (Text.trimSpace certPEM) = some cn := (Option.filter_eq_some_iff.mp verified).1
    split at same
    · cases same
      exact named
    · split at same
      · obtain ⟨enc, -, same⟩ := Option.bind_eq_some_iff.mp same
        cases same
        exact named
      · cases same
  | _ => cases same

/-- The writes of an enrolment work. -/
def Calm (env : Env) : Prop := env.writeCCD = .ok ∧ env.saveClient = .ok ∧ env.applyClients = true

/-- An enrolment without a key that is in order succeeds; the client is then
listed, and its bundle has its certificate and no key. -/
def KeylessWorks (crypto : Crypto) (kind : Kind) (s : State) (op : Op) (env : Env) : Prop :=
  ∀ r, request crypto env s op = some r → r.encKeyPEM = none → Calm env →
    ((run crypto env kind op).exec s).1 = some () ∧
      (∃ names, ((listPeers {}).exec (step crypto kind s (op, env))).1 = some names ∧ r.cn ∈ names) ∧
      ∃ bundle, ((clientConfigFile crypto {} (getCA crypto {}) kind r.cn).exec (step crypto kind s (op, env))).1 =
        some bundle ∧ bundle.certPEM = r.certPEM ∧ bundle.keyPEM = none

/-- A failed OpenVPN enrolment of a name without a row leaves no file for it. -/
def FileAtomic (crypto : Crypto) (kind : Kind) (s : State) (op : Op) (env : Env) : Prop :=
  kind = .openvpn → ∀ cn, enrolled crypto op = some cn → s.clients.get cn = none →
    ((run crypto env kind op).exec s).1 = none → (step crypto kind s (op, env)).ccd cn = false

section
variable {crypto : Crypto} {env : Env} {kind : Kind} {s : State}

/-- The clients and their files are as they were. -/
structure Untouched (s t : State) : Prop where
  clients : t.clients = s.clients
  ccd : t.ccd = s.ccd

theorem getCA_answers :
    Triple (· = s) (getCA crypto env) (fun ca t => Untouched s t ∧ authorityIn crypto env s = some ca)
      (fun t => Untouched s t ∧ authorityIn crypto env s = none) := by
  refine Triple.bind (Q := fun cached t => t = s ∧ s.ca = cached) (Triple.attempt (Triple.read ?_ ?_)) fun cached => ?_
  · rintro ca t found rfl
    exact ⟨rfl, found⟩
  · rintro t missing rfl
    exact ⟨rfl, missing⟩
  cases cached with
  | some ca =>
    refine Triple.pure ?_
    rintro t ⟨rfl, found⟩
    exact ⟨⟨rfl, rfl⟩, by rw [authorityIn, found]⟩
  | none =>
    refine Triple.bind (Q := fun stored t => t = s ∧ s.ca = none ∧ (if env.getCAMaterial then s.material else none) = stored)
      (Triple.attempt (Triple.read ?_ ?_)) fun stored => ?_
    · rintro m t found ⟨rfl, missing⟩
      exact ⟨rfl, missing, found⟩
    · rintro t absent ⟨rfl, missing⟩
      exact ⟨rfl, missing, absent⟩
    cases stored with
    | some m =>
      refine (fromMaterial_loads m).mono (fun _ start => start) ?_ ?_
      · rintro ca t ⟨u, ⟨rfl, missing, found⟩, rfl, authority⟩
        exact ⟨⟨rfl, rfl⟩, by rw [authorityIn, missing, found]; exact authority⟩
      · rintro t ⟨⟨rfl, missing, found⟩, authority⟩
        exact ⟨⟨rfl, rfl⟩, by rw [authorityIn, missing, found]; exact authority⟩
    | none =>
      intro t start
      obtain ⟨rfl, missing, absent⟩ := start
      refine Triple.lift_bind (P := (· = t)) ?_ (fun ca made => ?_) t rfl
      · rintro none' u rfl
        exact ⟨⟨rfl, rfl⟩, by simp [authorityIn, missing, absent, none']⟩
      refine Triple.lift_bind ?_ fun enc closed => ?_
      · rintro none' u rfl
        exact ⟨⟨rfl, rfl⟩, by simp [authorityIn, missing, absent, made, none']⟩
      have authority : authorityIn crypto env t = if env.saveCAMaterial = .ok then some ca else none := by
        simp [authorityIn, missing, absent, made, closed]
      refine Triple.bind (Q := fun _ u => Untouched t u ∧ authorityIn crypto env t = some ca) (Triple.write ?_ ?_ ?_)
        fun _ => ?_
      · rintro u ok rfl
        exact ⟨⟨rfl, rfl⟩, by rw [authority, if_pos ok]⟩
      · rintro u failed rfl
        exact ⟨⟨rfl, rfl⟩, by rw [authority, failed]; rfl⟩
      · rintro u lost rfl
        exact ⟨⟨rfl, rfl⟩, by rw [authority, lost]; rfl⟩
      exact Triple.bind (Q := fun _ u => Untouched t u ∧ authorityIn crypto env t = some ca)
        (Triple.modify fun u start => ⟨⟨start.1.clients, start.1.ccd⟩, start.2⟩) fun _ => Triple.pure fun u start => start

/-- The enrolment has a key to store, and its writes work. -/
def Complete (env : Env) (r : Request) : Prop := env.writeCCD = .ok ∧ env.saveClient = .ok ∧ r.encKeyPEM ≠ none

theorem not_complete_of_writeCCD {r : Request} (other : env.writeCCD ≠ .ok) : ¬Complete env r := fun complete =>
  other complete.1

theorem not_complete_of_saveClient {r : Request} (other : env.saveClient ≠ .ok) : ¬Complete env r := fun complete =>
  other complete.2.1

/-- The files once the enrolment got as far as its own. -/
def filed (env : Env) (s : State) (cn : Text) : Text → Bool :=
  if env.writeCCD = .failed then s.ccd else Function.update s.ccd cn true

theorem storeClient_filed (r : Request) :
    Triple (Untouched s) (storeClient env .openvpn r.cn r.certPEM r.encKeyPEM) (fun _ _ => Complete env r)
      (fun t => t.ccd = filed env s r.cn ∧ ¬Complete env r) := by
  refine Triple.bind (Q := fun _ t => env.writeCCD = .ok ∧ t.ccd = filed env s r.cn) (Triple.write ?_ ?_ ?_) fun _ => ?_
  · intro t ok start
    exact ⟨ok, by rw [filed, ok, start.ccd]; rfl⟩
  · intro t failed start
    exact ⟨by rw [filed, if_pos failed, start.ccd], not_complete_of_writeCCD (by rw [failed]; decide)⟩
  · intro t lost start
    exact ⟨by rw [filed, lost, start.ccd]; rfl, not_complete_of_writeCCD (by rw [lost]; decide)⟩
  refine Triple.bind (Q := fun _ _ => Complete env r) ?_ fun _ => Triple.pure fun _ start => start
  refine Triple.lift_bind (fun keyless t start => ⟨start.2, fun complete => complete.2.2 keyless⟩) fun key keyed => ?_
  refine Triple.write ?_ ?_ ?_
  · rintro t saved ⟨ok, -⟩
    exact ⟨ok, saved, by rw [keyed]; exact Option.some_ne_none key⟩
  · rintro t failed ⟨-, ccd⟩
    exact ⟨ccd, not_complete_of_saveClient (by rw [failed]; decide)⟩
  · rintro t lost ⟨-, ccd⟩
    exact ⟨ccd, not_complete_of_saveClient (by rw [lost]; decide)⟩

theorem storeClient_keyed (r : Request) :
    Triple (Untouched s) (storeClient env kind r.cn r.certPEM r.encKeyPEM) (fun _ _ => r.encKeyPEM ≠ none)
      (fun _ => True) := by
  refine Triple.bind (Q := fun _ _ => True) (fun _ _ => ⟨fun _ _ _ => trivial, fun _ _ => trivial⟩) fun _ => ?_
  refine Triple.bind (Q := fun _ _ => r.encKeyPEM ≠ none) ?_ fun _ => ?_
  · refine Triple.lift_bind (fun _ _ _ => trivial) fun key keyed => ?_
    have keyed' : r.encKeyPEM ≠ none := by
      rw [keyed]
      exact Option.some_ne_none key
    exact fun _ _ => ⟨fun _ _ _ => keyed', fun _ _ => trivial⟩
  · exact (Keeps.when (Keeps.guard _)).leads fun _ _ => trivial

section
variable (crypto env s) (op : Op) (Q : Request → State → Prop)

/-- The enrolment had a request, and something holds of it. -/
def Asked (t : State) : Prop := ∃ r, request crypto env s op = some r ∧ Q r t

/-- The enrolment had no request and did nothing, or something holds of it. -/
def Stopped (t : State) : Prop := request crypto env s op = none ∧ Untouched s t ∨ Asked crypto env s op Q t

end

/-- An enrolment comes to nothing, or it stores what it set out to. -/
theorem enrol_stores {op : Op} {Q E : Request → State → Prop} (enrols : op.enrols = true)
    (store : ∀ r, Triple (Untouched s) (storeClient env kind r.cn r.certPEM r.encKeyPEM) (fun _ => Q r) (E r))
    (undrawn : kind = .ikev2 → ∀ r t, Untouched s t → E r t) :
    Triple (· = s) (run crypto env kind op) (fun _ => Asked crypto env s op Q) (Stopped crypto env s op E) := by
  -- what is left once the request is known
  have stored : ∀ r, request crypto env s op = some r → Triple (Untouched s)
      (storeClient env kind r.cn r.certPEM r.encKeyPEM) (fun _ => Asked crypto env s op Q) (Stopped crypto env s op E) :=
    fun r same => (store r).mono (fun _ start => start) (fun _ t done => ⟨r, same, done⟩) fun t fails =>
      .inr ⟨r, same, fails⟩
  have drawn : ∀ r, request crypto env s op = some r → Triple (Untouched s) (drawPassword env kind)
      (fun _ => Untouched s) (Stopped crypto env s op E) :=
    fun r same => Triple.when (fun ikev2 => Triple.guard (fun _ _ start => start) fun t _ start =>
      .inr ⟨r, same, undrawn (of_decide_eq_true ikev2) r t start⟩) fun _ start => start
  -- the authority, and with it the rest of the call
  have fetched : ∀ {rest : CA → Proc State Unit}, (authorityIn crypto env s = none → request crypto env s op = none) →
      (∀ ca, authorityIn crypto env s = some ca →
        Triple (Untouched s) (rest ca) (fun _ => Asked crypto env s op Q) (Stopped crypto env s op E)) →
      Triple (· = s) (getCA crypto env >>= rest) (fun _ => Asked crypto env s op Q) (Stopped crypto env s op E) := by
    intro rest missing known
    refine Triple.bind (getCA_answers.mono (fun _ start => start) (fun _ _ answer => answer) ?_) fun ca t start =>
      known ca start.2 t start.1
    rintro t ⟨untouched, none'⟩
    exact .inl ⟨missing none', untouched⟩
  cases op with
  | addPeer name =>
    refine Triple.guard_bind ?_ fun named => fetched (fun none' => by simp [request, none']) fun ca authority => ?_
    · rintro unnamed t rfl
      exact .inl ⟨by simp_all [request], ⟨rfl, rfl⟩⟩
    replace named := of_decide_eq_true named
    refine Triple.lift_bind (fun none' t start => .inl ⟨by simp [request, authority, none'], start⟩) fun creds issued => ?_
    refine Triple.lift_bind (fun none' t start => .inl ⟨by simp [request, authority, issued, none'], start⟩)
      fun enc closed => ?_
    have same : request crypto env s (.addPeer name) = some ⟨Text.trimSpace name, creds.1, some enc⟩ := by
      simp [request, named, authority, issued, closed]
    exact Triple.bind (drawn _ same) fun _ => stored _ same
  | addPeerFromCSR csrPEM name =>
    refine Triple.guard_bind ?_ fun named => fetched (fun none' => by simp [request, none']) fun ca authority => ?_
    · rintro unnamed t rfl
      exact .inl ⟨by simp_all [request], ⟨rfl, rfl⟩⟩
    replace named := of_decide_eq_true named
    refine Triple.lift_bind (fun none' t start => .inl ⟨by simp [request, authority, none'], start⟩)
      fun certPEM signed => ?_
    have same : request crypto env s (.addPeerFromCSR csrPEM name) = some ⟨Text.trimSpace name, certPEM, none⟩ := by
      simp [request, named, authority, signed]
    exact stored _ same
  | importPeer certPEM keyPEM =>
    refine fetched (fun none' => by simp [request, none']) fun ca authority => ?_
    refine Triple.lift_bind (fun none' t start => .inl ⟨by simp [request, authority, none'], start⟩) fun cn verified => ?_
    split
    · rename_i keyless
      have same : request crypto env s (.importPeer certPEM keyPEM) = some ⟨cn, Text.trimSpace certPEM, none⟩ := by
        simp [request, authority, verified, keyless]
      exact stored _ same
    · rename_i keyed
      refine Triple.guard_bind (fun other t start => .inl ⟨by simp [request, authority, keyed, other], start⟩)
        fun matched => ?_
      refine Triple.lift_bind
        (fun none' t start => .inl ⟨by simp [request, authority, keyed, matched, none'], start⟩) fun enc closed => ?_
      have same : request crypto env s (.importPeer certPEM keyPEM) = some ⟨cn, Text.trimSpace certPEM, some enc⟩ := by
        simp [request, authority, verified, keyed, matched, closed]
      exact Triple.bind (drawn _ same) fun _ => stored _ same
  | _ => cases enrols

theorem enrols_of_enrolled {op : Op} {cn : Text} (named : enrolled crypto op = some cn) : op.enrols = true := by
  cases op <;> first | rfl | cases named

theorem keylessWorks_iff {op : Op} :
    KeylessWorks crypto kind s op env ↔
      ∀ r, request crypto env s op = some r → r.encKeyPEM = none → ¬Calm env := by
  constructor
  · intro works r same keyless calm
    have spec : Triple (· = s) (run crypto env kind op) _ _ :=
      enrol_stores (enrols_of_enrolled (enrolled_of_request same)) storeClient_keyed fun _ _ _ _ => trivial
    obtain ⟨r', same', keyed⟩ := spec.answer rfl (works r same keyless calm).1
    cases same.symm.trans same'
    exact keyed keyless
  · intro never r same keyless calm
    exact absurd calm (never r same keyless)

theorem fileAtomic_iff {op : Op} :
    FileAtomic crypto kind s op env ↔
      (kind = .openvpn → ∀ cn, enrolled crypto op = some cn → s.clients.get cn = none →
        s.ccd cn = false ∧ (request crypto env s op = none ∨ env.writeCCD = .failed) ∨
          ∃ r, request crypto env s op = some r ∧ Complete env r) := by
  refine forall_congr' fun openvpn => forall_congr' fun cn => forall_congr' fun named => forall_congr' fun _ => ?_
  subst openvpn
  have spec : Triple (· = s) (run crypto env .openvpn op) _ _ :=
    enrol_stores (enrols_of_enrolled named) storeClient_filed fun ikev2 => by cases ikev2
  constructor
  · intro atomic
    cases answer : ((run crypto env .openvpn op).exec s).1 with
    | some _ => exact .inr (spec.answer rfl answer)
    | none =>
      have gone : ((run crypto env .openvpn op).exec s).2.ccd cn = false := atomic answer
      rcases spec.failure rfl answer with ⟨none', untouched⟩ | ⟨r, same, ccd, -⟩
      · exact .inl ⟨by rw [← untouched.ccd]; exact gone, .inl none'⟩
      · cases named.symm.trans (enrolled_of_request same)
        rw [ccd, filed] at gone
        split at gone
        · rename_i failed
          exact .inl ⟨gone, .inr failed⟩
        · simp at gone
  · intro condition answer
    show ((run crypto env .openvpn op).exec s).2.ccd cn = false
    rcases spec.failure rfl answer with ⟨none', untouched⟩ | ⟨r, same, ccd, incomplete⟩
    · rcases condition with ⟨free, -⟩ | ⟨r, same, -⟩
      · rw [untouched.ccd, free]
      · cases none'.symm.trans same
    · rcases condition with ⟨free, none' | failed⟩ | ⟨r', same', complete⟩
      · cases none'.symm.trans same
      · rw [ccd, filed, if_pos failed, free]
      · cases same.symm.trans same'
        exact absurd complete incomplete

end

/-- Enrolment without a key works and a failed enrolment leaves no file,
exactly when no enrolment without a key is asked for, and an OpenVPN enrolment
of a new name stops before its file or completes. -/
theorem keyless_enrolment_iff (crypto : Crypto) (kind : Kind) (s : State) (op : Op) (env : Env) :
    KeylessWorks crypto kind s op env ∧ FileAtomic crypto kind s op env ↔
      (∀ r, request crypto env s op = some r → r.encKeyPEM = none → ¬Calm env) ∧
        (kind = .openvpn → ∀ cn, enrolled crypto op = some cn → s.clients.get cn = none →
          s.ccd cn = false ∧ (request crypto env s op = none ∨ env.writeCCD = .failed) ∨
            ∃ r, request crypto env s op = some r ∧ Complete env r) :=
  and_congr keylessWorks_iff fileAtomic_iff

/-- A request without a key, with everything working: the call fails under
either provider, the import as well, and OpenVPN leaves the file. -/
theorem keyless_enrolment_fails :
    (request sampleCrypto { draw := 1 } State.initial (.addPeerFromCSR "csr".toList "alice".toList) =
        some ⟨"alice".toList, "1:alice".toList, none⟩ ∧
      ((run sampleCrypto { draw := 1 } .openvpn (.addPeerFromCSR "csr".toList "alice".toList)).exec State.initial).1 =
        none ∧
      ((run sampleCrypto { draw := 1 } .ikev2 (.addPeerFromCSR "csr".toList "alice".toList)).exec State.initial).1 =
        none ∧
      (step sampleCrypto .openvpn State.initial (.addPeerFromCSR "csr".toList "alice".toList, { draw := 1 })).ccd
        "alice".toList = true) ∧
    request sampleCrypto { draw := 1 } State.initial (.importPeer "7:bob".toList []) =
        some ⟨"bob".toList, "7:bob".toList, none⟩ ∧
      ((run sampleCrypto { draw := 1 } .openvpn (.importPeer "7:bob".toList [])).exec State.initial).1 = none ∧
      ((run sampleCrypto { draw := 1 } .ikev2 (.importPeer "7:bob".toList [])).exec State.initial).1 = none ∧
      (step sampleCrypto .openvpn State.initial (.importPeer "7:bob".toList [], { draw := 1 })).ccd "bob".toList =
        true := by
  decide +kernel

end Protean.Cert
