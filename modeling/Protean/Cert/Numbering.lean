import Protean.Cert.Effect
import Protean.Run

open Proc

/- The numbers of the revocation lists, when a list of another server is taken
over: its number may be any integer, the stored one is a `bigint`. -/
namespace Protean.Cert

def maxInt64 : Nat := 2 ^ 63 - 1

/-- `big.Int.Int64` keeps the low 64 bits, as a signed number. -/
def int64 (n : Int) : Int := n.bmod (2 ^ 64)

/-- What `x509.ParseRevocationList` finds. -/
structure RevocationList where
  revoked : List (Int × Nat)
  number : Option Int
  deriving DecidableEq, Repr

structure CAImportReq where
  caCert : Text
  caKey : Text
  crlPEM : Text := []
  deriving DecidableEq, Repr

/-- How the steps of a request go. -/
structure ImportEnv where
  calls : Env := {}
  importRevokedCerts : Outcome := .ok
  seedCRLNumber : Outcome := .ok

/-- A stored number that is the largest of its type cannot be increased. -/
def Env.bounded (env : Env) (s : State) : Env :=
  if s.crlNumber.getD 0 < maxInt64 then env else { env with nextCRLNumber := .failed }

/-- What `NextCRLNumber` answers. -/
def nextNumber (s : State) : Option Nat := ((nextCRLNumber (Env.bounded {} s)).exec s).1

/-- In one transaction, if there is anything to record; a serial that is there
already stays as it is. -/
def importRevokedCerts (outcome : Outcome) (rows : List RevokedCertRow) : Proc State Unit :=
  Proc.when (rows ≠ []) <| Proc.write outcome fun s =>
    let add known r := if r.serial ∈ known.map RevokedCertRow.serial then known else known ++ [r]
    { s with revoked := rows.foldl add s.revoked }

/-- The larger of the stored number and this one. -/
def seedCRLNumber (outcome : Outcome) (minimum : Int) : Proc State Unit :=
  Proc.write outcome fun s => { s with crlNumber := some (max (s.crlNumber.getD 0) minimum.toNat) }

section
variable (crypto : Crypto) (parse : Text → Option RevocationList) (env : ImportEnv) (req : CAImportReq)

/-- `ParseCRL`. Without a number in the list it is zero. -/
def parseCRL (crlPEM : Text) : Option (List (Int × Nat) × Int) :=
  (parse crlPEM).map fun list => (list.revoked, (list.number.map int64).getD 0)

/-- The rows for the revocations of a list that is taken over. -/
def importedRows (revoked : List (Int × Nat)) : List RevokedCertRow := revoked.map fun r => ⟨Text.itoa r.1, [], r.2⟩

/-- All of the request that may make it fail. -/
def adoptCA : Proc State Unit := do
  importCA crypto env.calls (Text.trimSpace req.caCert) (Text.trimSpace req.caKey)
  if Text.trimSpace req.crlPEM = [] then return
  else
    let (revoked, number) ← Proc.lift (parseCRL parse (Text.trimSpace req.crlPEM))
    importRevokedCerts env.importRevokedCerts (importedRows revoked)
    Proc.when (0 < number) (seedCRLNumber env.seedCRLNumber number)

/-- `RebuildCRL`, as the database lets it draw a number. -/
def rebuildBounded : Proc State Unit :=
  ⟨fun s => (rebuild (env.calls.bounded s) (getCA crypto (env.calls.bounded s))).exec s⟩

/-- The handler for a provider with certificates. A list that cannot be applied to
the host does not fail the request. -/
def apiCAImport : Proc State Unit := do
  adoptCA crypto parse env req
  Proc.when (Text.trimSpace req.crlPEM ≠ []) do
    let _ ← Proc.attempt (rebuildBounded crypto env)

end

/-- What comes to an instance: a call of its provider, or the import of a CA. -/
inductive Incoming
  | call (op : Op) (env : Env)
  | importCA (req : CAImportReq) (env : ImportEnv)

def serve (crypto : Crypto) (kind : Kind) (parse : Text → Option RevocationList) (s : State) : Incoming → State
  | .call op env => step crypto kind s (op, env.bounded s)
  | .importCA req env => ((apiCAImport crypto parse env req).exec s).2

theorem int64_lt (n : Int) : int64 n ≤ maxInt64 := by
  unfold int64 maxInt64
  have upper : n.bmod (2 ^ 64) < (((2 ^ 64 : Nat) : Int) + 1) / 2 := Int.bmod_lt (by decide)
  omega

theorem int64_of_le {n : Nat} (small : n ≤ maxInt64) : int64 n = n := by
  unfold int64
  unfold maxInt64 at small
  exact Int.bmod_eq_of_le (by omega) (by omega)

theorem nextNumber_eq (s : State) :
    nextNumber s = if s.crlNumber.getD 0 < maxInt64 then some (s.crlNumber.getD 0 + 1) else none := by
  unfold nextNumber Env.bounded
  split <;> rfl

/-- What only the revocation list and its number decide. -/
def Stable (I : State → Prop) : Prop := ∀ ⦃s t : State⦄, t.crlNumber = s.crlNumber → t.crl = s.crl → I s → I t

section
variable {crypto : Crypto} {env : Env} {kind : Kind} {I : State → Prop}

/-- A change of other parts of the state. -/
theorem Stable.write (stable : Stable I) {outcome : Outcome} {f : State → State}
    (crlNumber : ∀ s, (f s).crlNumber = s.crlNumber) (crl : ∀ s, (f s).crl = s.crl) : Keeps I (Proc.write outcome f) :=
  Keeps.write fun s => stable (crlNumber s) (crl s)

theorem Stable.ignoresAuthority (stable : Stable I) : IgnoresAuthority I := fun _ _ _ _ crlNumber crl => stable crlNumber crl

theorem Stable.getCA (stable : Stable I) : Keeps I (getCA crypto env) := stable.ignoresAuthority.getCA

theorem Stable.storeClient (stable : Stable I) (cn certPEM : Text) (enc : Option Text) :
    Keeps I (storeClient env kind cn certPEM enc) := by
  refine Keeps.bind (Keeps.when (stable.write (fun _ => rfl) fun _ => rfl)) fun _ => ?_
  refine Keeps.bind (Keeps.bind (Keeps.lift _) fun key => stable.write (fun _ => rfl) fun _ => rfl) fun _ => ?_
  exact Keeps.when (Keeps.guard _)

theorem Stable.revoke (stable : Stable I) (rebuilds : ∀ ca, Keeps I (rebuildCRL env ca)) (cn : Text) :
    Keeps I (revoke crypto env (Cert.getCA crypto env) cn) := by
  refine Keeps.bind (Keeps.attempt (Keeps.read _)) fun found => ?_
  cases found with
  | none => exact Keeps.pure ()
  | some row =>
    refine Keeps.bind (Keeps.lift _) fun serial => Keeps.bind (stable.write ?_ ?_) fun _ =>
      Keeps.bind stable.getCA fun ca => rebuilds ca
    · intro s
      split <;> rfl
    · intro s
      split <;> rfl

/-- A call keeps what its rewriting of the list keeps. -/
theorem Stable.run (stable : Stable I) (rebuilds : ∀ ca, Keeps I (rebuildCRL env ca)) (op : Op) :
    Keeps I (run crypto env kind op) := by
  have password : Keeps I (drawPassword env kind) := Keeps.when (Keeps.guard _)
  cases op with
  | addPeer name =>
    refine Keeps.bind (Keeps.guard _) fun _ => Keeps.bind stable.getCA fun ca => Keeps.bind (Keeps.lift _) fun issued => ?_
    exact Keeps.bind (Keeps.lift _) fun enc => Keeps.bind password fun _ => stable.storeClient _ _ _
  | addPeerFromCSR csrPEM name =>
    refine Keeps.bind (Keeps.guard _) fun _ => Keeps.bind stable.getCA fun ca => ?_
    exact Keeps.bind (Keeps.lift _) fun certPEM => stable.storeClient _ _ _
  | importPeer certPEM keyPEM =>
    refine Keeps.bind stable.getCA fun ca => Keeps.bind (Keeps.lift _) fun cn => ?_
    split
    · exact stable.storeClient _ _ _
    · refine Keeps.bind (Keeps.guard _) fun _ => Keeps.bind (Keeps.lift _) fun enc => ?_
      exact Keeps.bind password fun _ => stable.storeClient _ _ _
  | updatePeer id => exact Keeps.bind (Keeps.read _) fun row => stable.storeClient _ _ _
  | removePeer id =>
    refine Keeps.bind (stable.revoke rebuilds id) fun _ => Keeps.bind (Keeps.when ?_) fun _ => ?_
    · exact Keeps.bind (Keeps.attempt (stable.write (fun _ => rfl) fun _ => rfl)) fun _ => Keeps.pure ()
    · exact Keeps.bind (stable.write (fun _ => rfl) fun _ => rfl) fun _ => Keeps.when (Keeps.guard _)
  | rebuildCRL => exact Keeps.bind stable.getCA fun ca => rebuilds ca
  | clientConfigFile id =>
    refine Keeps.bind (Keeps.bind stable.getCA fun ca => Keeps.bind (Keeps.read _) fun row => ?_) fun _ => Keeps.pure ()
    split
    · exact Keeps.pure _
    · exact Keeps.bind (Keeps.lift _) fun keyPEM => Keeps.bind (Keeps.when (Keeps.guard _)) fun _ => Keeps.pure _
  | clientProfile id format => exact Keeps.bind (keeps_clientProfile stable.getCA id format) fun _ => Keeps.pure ()
  | ensureServer =>
    refine Keeps.bind stable.getCA fun ca => Keeps.bind (Keeps.lift _) fun _ => Keeps.bind (Keeps.guard _) fun _ => ?_
    exact Keeps.bind (rebuilds ca) fun _ => Keeps.guard _
  | importCA certPEM keyPEM => exact stable.ignoresAuthority.importCA certPEM keyPEM
  | new => exact Keeps.modify fun s => stable rfl rfl

end

/-- The stored number is no less than `k` and than the number on the host. -/
structure Ledger (k : Nat) (s : State) : Prop where
  least : k ≤ s.crlNumber.getD 0
  host : ∀ crl, s.crl = some crl → crl.number ≤ s.crlNumber.getD 0

section
variable {crypto : Crypto} {env : Env} {kind : Kind} {parse : Text → Option RevocationList} {k : Nat} {s t : State}

theorem stable_ledger : Stable (Ledger k) := by
  intro s t crlNumber crl ledger
  refine ⟨?_, fun crl' there => ?_⟩
  · rw [crlNumber]
    exact ledger.least
  · rw [crlNumber]
    exact ledger.host crl' (crl ▸ there)

theorem rebuildCRL_ledger (ca : CA) : Keeps (Ledger k) (rebuildCRL env ca) := by
  have raised : ∀ s, Ledger k s → Ledger k { s with crlNumber := some (s.crlNumber.getD 0 + 1) } := fun s ledger =>
    ⟨Nat.le_succ_of_le ledger.least, fun crl there => Nat.le_succ_of_le (ledger.host crl there)⟩
  refine Keeps.bind (Keeps.read _) fun rows => ?_
  refine Triple.bind (Q := fun n s => Ledger k s ∧ n ≤ s.crlNumber.getD 0) ?_ fun n => ?_
  · refine Triple.bind (Keeps.write raised) fun _ => Triple.read (fun n s found ledger => ⟨ledger, ?_⟩) fun s _ ledger => ledger
    rw [found]
    exact Nat.le_refl n
  · have written : ∀ s, Ledger k s ∧ n ≤ s.crlNumber.getD 0 → Ledger k { s with crl := some ⟨ca, crlEntries rows, n⟩ } := by
      rintro s ⟨ledger, drawn⟩
      refine ⟨ledger.least, fun crl there => ?_⟩
      cases there
      exact drawn
    refine Triple.bind (Triple.guard (Q := fun _ s => Ledger k s ∧ n ≤ s.crlNumber.getD 0) (fun s _ holds => holds)
      fun s _ holds => holds.1) fun _ => ?_
    exact Triple.write (fun s _ => written s) (fun s _ holds => holds.1) fun s _ => written s

theorem adoptCA_ledger (env : ImportEnv) (req : CAImportReq) : Keeps (Ledger k) (adoptCA crypto parse env req) := by
  have seeded : ∀ minimum, Keeps (Ledger k) (seedCRLNumber env.seedCRLNumber minimum) := fun minimum =>
    Keeps.write fun _ ledger => ⟨Nat.le_trans ledger.least (Nat.le_max_left _ _), fun crl there =>
      Nat.le_trans (ledger.host crl there) (Nat.le_max_left _ _)⟩
  refine Keeps.bind (stable_ledger.ignoresAuthority.importCA _ _) fun _ => ?_
  split
  · exact Keeps.pure ()
  · refine Keeps.bind (Keeps.lift _) fun list => ?_
    exact Keeps.bind (Keeps.when (stable_ledger.write (fun _ => rfl) fun _ => rfl)) fun _ => Keeps.when (seeded _)

theorem serve_ledger (ledger : Ledger k s) (request : Incoming) : Ledger k (serve crypto kind parse s request) := by
  cases request with
  | call op env => exact (stable_ledger.run rebuildCRL_ledger op).state (fun _ _ holds => holds) ledger
  | importCA req env =>
    have rebuilds : Keeps (Ledger k) (rebuildBounded crypto env) := by
      intro s ledger
      have keeps : Keeps (Ledger k) (rebuild (env.calls.bounded s) (getCA crypto (env.calls.bounded s))) :=
        Keeps.bind stable_ledger.getCA fun ca => rebuildCRL_ledger ca
      exact keeps s ledger
    have keeps : Keeps (Ledger k) (apiCAImport crypto parse env req) :=
      Keeps.bind (adoptCA_ledger env req) fun _ => Keeps.when (Keeps.bind (Keeps.attempt rebuilds) fun _ => Keeps.pure ())
    exact keeps.state (fun _ _ holds => holds) ledger

/-- No number that was on the host is above the stored one, at any later time. -/
theorem issued_le_stored (crypto : Crypto) (kind : Kind) (parse : Text → Option RevocationList) (start : Ledger 0 s)
    (past : List Incoming) {first : List Incoming} (early : first <+: past)
    {crl : CRL} (there : (Run.after (serve crypto kind parse) s first).crl = some crl) :
    crl.number ≤ (Run.after (serve crypto kind parse) s past).crlNumber.getD 0 := by
  obtain ⟨later, rfl⟩ := early
  have then' : Ledger 0 (Run.after (serve crypto kind parse) s first) :=
    Run.invariant (Ledger 0) (fun _ request ledger => serve_ledger ledger request) start first
  have now : Ledger crl.number (Run.after (serve crypto kind parse) s first) := ⟨then'.host crl there, then'.host⟩
  rw [Run.after_append]
  exact (Run.invariant (Ledger crl.number) (fun _ request ledger => serve_ledger ledger request) now later).least

/-- The list of another server is taken over with the larger of the two numbers. -/
theorem adoptCA_crlNumber {env : ImportEnv} {req : CAImportReq} {revoked : List (Int × Nat)} {number : Int}
    (given : Text.trimSpace req.crlPEM ≠ []) (parsed : parse (Text.trimSpace req.crlPEM) = some ⟨revoked, some number⟩)
    (accepted : (adoptCA crypto parse env req).exec s = (some (), t)) :
    t.crlNumber.getD 0 = max (s.crlNumber.getD 0) (int64 number).toNat := by
  obtain ⟨_, u, imported, rest⟩ := exec_bind_eq_some_iff.mp accepted
  have stable : Stable (fun u => u.crlNumber = s.crlNumber) := fun _ _ crlNumber _ before => crlNumber.trans before
  have same : u.crlNumber = s.crlNumber := (stable.ignoresAuthority.importCA _ _ s rfl).1 _ u imported
  rw [if_neg given, parseCRL, parsed, Option.map_some, exec_lift_bind] at rest
  obtain ⟨_, v, recorded, seeded⟩ := exec_bind_eq_some_iff.mp rest
  have keeps : Keeps (fun u => u.crlNumber = s.crlNumber)
      (importRevokedCerts env.importRevokedCerts (importedRows revoked)) :=
    Keeps.when (stable.write (fun _ => rfl) fun _ => rfl)
  have same' : v.crlNumber = s.crlNumber := (keeps u same).1 _ v recorded
  replace seeded : (Proc.when (0 < int64 number) (seedCRLNumber env.seedCRLNumber (int64 number))).exec v =
    (some (), t) := seeded
  by_cases positive : 0 < int64 number
  · rw [Proc.when, if_pos (decide_eq_true positive), seedCRLNumber, exec_write] at seeded
    obtain ⟨answer, state⟩ := Prod.mk.inj seeded
    have ok : env.seedCRLNumber = .ok := by
      by_contra other
      rw [if_neg other] at answer
      cases answer
    rw [ok, if_neg (by decide)] at state
    rw [← state, ← same']
    rfl
  · rw [Proc.when, if_neg (by simpa using positive)] at seeded
    obtain rfl : v = t := (Prod.mk.inj seeded).2
    rw [same', Int.toNat_of_nonpos (Int.not_lt.mp positive), Nat.max_zero]

/-- A list that is written has the number that comes after the stored one. -/
theorem rebuildBounded_number (env : ImportEnv) (t : State) :
    ((rebuildBounded crypto env).exec t).2.crl = t.crl ∨
      ∃ crl, ((rebuildBounded crypto env).exec t).2.crl = some crl ∧ nextNumber t = some crl.number := by
  have stable : Stable (fun u => u.crlNumber = t.crlNumber ∧ u.crl = t.crl) := fun _ _ crlNumber crl before =>
    ⟨crlNumber.trans before.1, crl.trans before.2⟩
  have fits : (env.calls.bounded t).nextCRLNumber ≠ .failed → nextNumber t = some (t.crlNumber.getD 0 + 1) := by
    intro answered
    rw [nextNumber_eq]
    unfold Env.bounded at answered
    split at answered
    · rename_i room
      exact if_pos room
    · exact absurd rfl answered
  have rebuilds : ∀ ca, Triple (fun u => u.crlNumber = t.crlNumber ∧ u.crl = t.crl) (rebuildCRL (env.calls.bounded t) ca)
      (fun _ u => u.crl = t.crl ∨ ∃ crl, u.crl = some crl ∧ nextNumber t = some crl.number)
      (fun u => u.crl = t.crl ∨ ∃ crl, u.crl = some crl ∧ nextNumber t = some crl.number) := by
    intro ca
    refine Triple.bind ((Keeps.read _).leads fun u holds => .inl holds.2) fun rows => ?_
    refine Triple.bind (Q := fun n u => nextNumber t = some n ∧ u.crl = t.crl) ?_ fun n => ?_
    · refine Triple.bind (Q := fun _ u => nextNumber t = u.crlNumber ∧ u.crl = t.crl) ?_ fun _ => ?_
      · refine Triple.write (fun u ok holds => ⟨?_, holds.2⟩) (fun u _ holds => .inl holds.2) fun u _ holds => .inl holds.2
        rw [fits (by rw [ok]; exact nofun), ← holds.1]
      · exact Triple.read (fun n u found holds => ⟨holds.1.trans found, holds.2⟩) fun u _ holds => .inl holds.2
    · refine Triple.bind ((Keeps.guard _).leads fun u holds => .inl holds.2) fun _ => ?_
      exact Triple.write (fun u _ holds => .inr ⟨_, rfl, holds.1⟩) (fun u _ holds => .inl holds.2)
        fun u _ holds => .inr ⟨_, rfl, holds.1⟩
  have triple : Triple (fun u => u.crlNumber = t.crlNumber ∧ u.crl = t.crl)
      (rebuild (env.calls.bounded t) (getCA crypto (env.calls.bounded t)))
      (fun _ u => u.crl = t.crl ∨ ∃ crl, u.crl = some crl ∧ nextNumber t = some crl.number)
      (fun u => u.crl = t.crl ∨ ∃ crl, u.crl = some crl ∧ nextNumber t = some crl.number) :=
    Triple.bind (stable.getCA.leads fun u holds => .inl holds.2) rebuilds
  exact triple.state (fun _ _ holds => holds) ⟨rfl, rfl⟩

end

/-- After a list with the number `number` has been taken over, there is a next list
and its number is above that and above every number before exactly if this
number and the stored one are both below the largest `bigint`. A number that is
not above it is given out exactly if it does not fit and there is a next one. -/
theorem adopted_numbering_iff (crypto : Crypto) (kind : Kind) (parse : Text → Option RevocationList) {s₀ : State}
    (start : Ledger 0 s₀) (past : List Incoming) (env : ImportEnv) {req : CAImportReq} {revoked : List (Int × Nat)}
    {number : Nat} {s' : State} (given : Text.trimSpace req.crlPEM ≠ [])
    (parsed : parse (Text.trimSpace req.crlPEM) = some ⟨revoked, some number⟩)
    (accepted : (apiCAImport crypto parse env req).exec (Run.after (serve crypto kind parse) s₀ past) = (some (), s')) :
    ∃ t, (adoptCA crypto parse env req).exec (Run.after (serve crypto kind parse) s₀ past) = (some (), t) ∧
      (s'.crl = t.crl ∨ ∃ crl, s'.crl = some crl ∧ nextNumber t = some crl.number) ∧
      ((∃ n, nextNumber t = some n ∧ number < n ∧ ∀ first, first <+: past → ∀ crl,
          (Run.after (serve crypto kind parse) s₀ first).crl = some crl → crl.number < n) ↔
        number < maxInt64 ∧ (Run.after (serve crypto kind parse) s₀ past).crlNumber.getD 0 < maxInt64) ∧
      ((∀ n, nextNumber t = some n → number < n) ↔ number ≤ maxInt64 ∨ nextNumber t = none) := by
  have issued : ∀ first, first <+: past → ∀ crl, (Run.after (serve crypto kind parse) s₀ first).crl = some crl →
      crl.number ≤ (Run.after (serve crypto kind parse) s₀ past).crlNumber.getD 0 :=
    fun _ early _ there => issued_le_stored crypto kind parse start past early there
  generalize Run.after (serve crypto kind parse) s₀ past = s at accepted issued ⊢
  obtain ⟨_, t, adopted, rebuilt⟩ := exec_bind_eq_some_iff.mp accepted
  have stored := adoptCA_crlNumber given parsed adopted
  have last : s' = ((rebuildBounded crypto env).exec t).2 := by
    rw [Proc.when, if_pos (decide_eq_true given)] at rebuilt
    exact (Prod.mk.inj rebuilt).2.symm
  have bound := int64_lt number
  refine ⟨t, adopted, last ▸ rebuildBounded_number env t, ?_, ?_⟩
  · rw [nextNumber_eq, stored]
    constructor
    · rintro ⟨n, next, larger, _⟩
      split at next
      · cases next
        omega
      · cases next
    · rintro ⟨small, room⟩
      rw [int64_of_le (Nat.le_of_lt small), Int.toNat_natCast, if_pos (by omega)]
      refine ⟨_, rfl, by omega, fun first early crl there => ?_⟩
      have before := issued first early crl there
      omega
  · rw [nextNumber_eq, stored]
    constructor
    · intro larger
      split at larger
      · rename_i room
        have next := larger _ rfl
        exact .inl (by omega)
      · rename_i full
        exact .inr (if_neg full)
    · rintro (small | none) n next
      · rw [int64_of_le small, Int.toNat_natCast] at next
        split at next
        · cases next
          omega
        · cases next
      · rw [none] at next
        cases next

/-- A text that is a decimal number stands for a list with that number. -/
def sampleParse (crlPEM : Text) : Option RevocationList := (Text.readSigned crlPEM).map fun n => ⟨[], some n⟩

def sampleImport (number : Text) : CAImportReq := ⟨"ca1".toList, "key1".toList, number⟩

theorem adopted_numbering_iff_sample :
    ∃ t n, (adoptCA sampleCrypto sampleParse {} (sampleImport "41".toList)).exec State.initial = (some (), t) ∧
      nextNumber t = some n ∧ 41 < n := by
  have answer : ((apiCAImport sampleCrypto sampleParse {} (sampleImport "41".toList)).exec State.initial).1 = some () := by
    decide +kernel
  have accepted : (apiCAImport sampleCrypto sampleParse {} (sampleImport "41".toList)).exec
      (Run.after (serve sampleCrypto .openvpn sampleParse) State.initial []) =
        (some (), ((apiCAImport sampleCrypto sampleParse {} (sampleImport "41".toList)).exec State.initial).2) :=
    Prod.ext answer rfl
  have start : Ledger 0 State.initial := ⟨Nat.le_refl 0, nofun⟩
  have parsed : sampleParse (Text.trimSpace (sampleImport "41".toList).crlPEM) = some ⟨[], some ((41 : Nat) : Int)⟩ := by
    decide +kernel
  obtain ⟨t, adopted, _, continues, _⟩ := adopted_numbering_iff sampleCrypto .openvpn sampleParse start [] {}
    (by decide +kernel) parsed accepted
  obtain ⟨n, next, larger, _⟩ := continues.mpr (by decide +kernel)
  exact ⟨t, n, adopted, next, larger⟩

/-- The numbers 2^63 and 2^64 + 5 are followed by 1 and 6, and 2^63 - 1 by none. -/
theorem adopted_numbering_restarts :
    let adopt := fun number => (apiCAImport sampleCrypto sampleParse {} (sampleImport (Text.itoa number))).exec State.initial
    ((adopt (2 ^ 63)).1 = some () ∧ (adopt (2 ^ 63)).2.crl.map (·.number) = some 1) ∧
      ((adopt (2 ^ 64 + 5)).1 = some () ∧ (adopt (2 ^ 64 + 5)).2.crl.map (·.number) = some 6) ∧
      (adopt (2 ^ 63 - 1)).1 = some () ∧ (adopt (2 ^ 63 - 1)).2.crl = none ∧ nextNumber (adopt (2 ^ 63 - 1)).2 = none := by
  decide +kernel

end Protean.Cert
