import Protean.Token.Issue

namespace Protean.Token

/-- What the three issuers have signed. -/
inductive Issued
  | pending (time : Int) (username : List UInt8)
  | oidc (time : Int) (verifier nonce : List UInt8)
  | csrf (nonce : Vector UInt8 16)

def Issued.payload : Issued → Text
  | .pending time username => PendingAuth.payload time username
  | .oidc time verifier nonce => OIDCState.payload time verifier nonce
  | .csrf nonce => CSRF.payload nonce

/-- A token that can be assembled from anything but new signatures: where a
part of it is followed by a dot and its signature, an issuer has signed that
part. -/
def Assembled (mac : Text → Vector UInt8 32) (log : List Issued) (token : Text) : Prop :=
  ∀ payload, token = signed mac payload → ∃ issued ∈ log, issued.payload = payload

section
variable {a b a' b' : Text} {now time : Int} {mac : Text → Vector UInt8 32} {token : Text}

theorem dot_not_mem_of_readSigned {t : Text} {v : Int} (read : Text.readSigned t = some v) : '.' ∉ t := by
  intro member
  rcases Text.mem_of_readSigned read member with digit | same | same
  · cases digit
  · cases same
  · cases same

theorem dot_not_mem_itoa (n : Int) : '.' ∉ Text.itoa n := dot_not_mem_of_readSigned (Text.readSigned_itoa n)

/-- A token is signed in one way, since a signature has no dot. -/
theorem signed_injective : Function.Injective (signed mac) := by
  have last : ∀ payload, Text.cutLast '.' (signed mac payload) = some (payload, sign mac payload) := fun payload =>
    Text.cutLast_eq_some_iff.mpr ⟨rfl, dot_not_mem_sign payload⟩
  intro payload payload' same
  have cuts := last payload
  rw [same, last payload'] at cuts
  exact (Prod.mk.inj (Option.some.inj cuts)).1.symm

variable {issued : Issued}

theorem assembled_of_issued {log : List Issued} (logged : issued ∈ log) : Assembled mac log (signed mac issued.payload) :=
  fun _ same => ⟨issued, logged, signed_injective same⟩

/-- The dots in a payload tell the issuers apart: none in the one of a form,
one in the one of a pending login, two in the one of a state. -/
theorem csrf_of_payload (fresh : '.' ∉ issued.payload) : ∃ nonce, issued = .csrf nonce := by
  cases issued with
  | pending time username => exact absurd (by simp [Issued.payload, PendingAuth.payload]) fresh
  | oidc time verifier nonce => exact absurd (by simp [Issued.payload, OIDCState.payload_eq]) fresh
  | csrf nonce => exact ⟨nonce, rfl⟩

theorem pending_of_payload (same : issued.payload = a ++ '.' :: b) (first : '.' ∉ a) (second : '.' ∉ b) :
    ∃ time username, issued = .pending time username ∧ a = Base64.encode username ∧
      b = Text.itoa (expiry PendingAuth.ttl time) := by
  cases issued with
  | pending time username =>
    obtain ⟨rfl, rfl⟩ := Text.append_sep_inj same (dot_not_mem_encode _) first
    exact ⟨time, username, rfl, rfl, rfl⟩
  | oidc time verifier nonce =>
    rw [Issued.payload, OIDCState.payload_eq] at same
    obtain ⟨_, rfl⟩ := Text.append_sep_inj same (dot_not_mem_encode _) first
    exact absurd (by simp) second
  | csrf nonce =>
    have member : '.' ∈ CSRF.payload nonce := by
      rw [show CSRF.payload nonce = a ++ '.' :: b from same]
      simp
    exact absurd member (dot_not_mem_encode _)

theorem oidc_of_payload {c : Text} (same : issued.payload = a ++ '.' :: (b ++ '.' :: c)) (first : '.' ∉ a) (second : '.' ∉ b) :
    ∃ time verifier nonce, issued = .oidc time verifier nonce ∧ a = Base64.encode verifier ∧
      b = Base64.encode nonce ∧ c = Text.itoa (expiry OIDCState.ttl time) := by
  cases issued with
  | pending time username =>
    obtain ⟨_, tail⟩ := Text.append_sep_inj same (dot_not_mem_encode _) first
    exact absurd (by rw [tail]; simp) (dot_not_mem_itoa (expiry PendingAuth.ttl time))
  | oidc time verifier nonce =>
    rw [Issued.payload, OIDCState.payload_eq] at same
    obtain ⟨rfl, tail⟩ := Text.append_sep_inj same (dot_not_mem_encode _) first
    obtain ⟨rfl, rfl⟩ := Text.append_sep_inj tail (dot_not_mem_encode _) second
    exact ⟨time, verifier, nonce, rfl, rfl, rfl, rfl⟩
  | csrf nonce =>
    have member : '.' ∈ CSRF.payload nonce := by
      rw [show CSRF.payload nonce = a ++ '.' :: (b ++ '.' :: c) from same]
      simp
    exact absurd member (dot_not_mem_encode _)

/-- What `PendingAuth.Verify` accepts: a signed payload of two parts, of which
the second is a time that has not passed. -/
theorem PendingAuth.verify_eq_some_iff {user : List UInt8} :
    PendingAuth.verify mac now token = some user ↔
      ∃ userB64 expStr exp, token = signed mac (userB64 ++ '.' :: expStr) ∧ '.' ∉ userB64 ∧
        Text.atoi expStr = some exp ∧ now ≤ exp ∧ Base64.decode userB64 = some user := by
  simp only [PendingAuth.verify, Option.bind_eq_bind, Option.bind_eq_some_iff, Prod.exists, Text.cutLast_eq_some_iff,
    Text.cut_eq_some_iff, Option.guard_eq_some', signed]
  constructor
  · rintro ⟨payload, sig, ⟨rfl, _⟩, _, rfl, userB64, expStr, ⟨rfl, fresh⟩, exp, read, _, unexpired, decoded⟩
    exact ⟨userB64, expStr, exp, rfl, fresh, read, unexpired, decoded⟩
  · rintro ⟨userB64, expStr, exp, rfl, fresh, read, unexpired, decoded⟩
    exact ⟨_, _, ⟨rfl, dot_not_mem_sign _⟩, (), rfl, userB64, expStr, ⟨rfl, fresh⟩, exp, read, (), unexpired, decoded⟩

variable {verifier nonce : List UInt8}

theorem OIDCState.verify_eq_some_iff : OIDCState.verify mac now token = some (verifier, nonce) ↔
      ∃ verifierB64 nonceB64 expStr exp, token = signed mac (verifierB64 ++ '.' :: (nonceB64 ++ '.' :: expStr)) ∧
        '.' ∉ verifierB64 ∧ '.' ∉ nonceB64 ∧ '.' ∉ expStr ∧ Text.atoi expStr = some exp ∧ now ≤ exp ∧
        Base64.decode verifierB64 = some verifier ∧ Base64.decode nonceB64 = some nonce := by
  constructor
  · intro accepted
    unfold OIDCState.verify at accepted
    split at accepted
    · rename_i verifierB64 nonceB64 expStr sig parts
      obtain ⟨rfl, fresh⟩ := (Text.splitOn_eq_iff (by simp)).mp parts
      simp only [Option.bind_eq_bind, Option.bind_eq_some_iff, Option.guard_eq_some', Option.pure_def,
        Option.some.injEq, Prod.mk.injEq] at accepted
      obtain ⟨_, rfl, exp, read, _, unexpired, _, decoded, _, decoded', rfl, rfl⟩ := accepted
      simp only [List.forall_mem_cons] at fresh
      refine ⟨verifierB64, nonceB64, expStr, exp, ?_, fresh.1, fresh.2.1, fresh.2.2.1, read, unexpired, decoded, decoded'⟩
      simp [signed, List.intercalate]
    · cases accepted
  · rintro ⟨verifierB64, nonceB64, expStr, exp, rfl, first, second, third, read, unexpired, decoded, decoded'⟩
    have join : ['.'].intercalate [verifierB64, nonceB64, expStr] = verifierB64 ++ '.' :: (nonceB64 ++ '.' :: expStr) := by
      simp [List.intercalate]
    have parts : (signed mac (verifierB64 ++ '.' :: (nonceB64 ++ '.' :: expStr))).splitOn '.' =
        [verifierB64, nonceB64, expStr, sign mac (verifierB64 ++ '.' :: (nonceB64 ++ '.' :: expStr))] := by
      refine (Text.splitOn_eq_iff (by simp)).mpr ⟨by simp [signed, List.intercalate], ?_⟩
      simp only [List.forall_mem_cons]
      exact ⟨first, second, third, dot_not_mem_sign _, fun _ none => by cases none⟩
    simp only [OIDCState.verify, parts, join, Option.bind_eq_bind, Option.bind_eq_some_iff, Option.guard_eq_some']
    exact ⟨(), trivial, exp, read, (), unexpired, verifier, decoded, nonce, decoded', rfl⟩

theorem CSRF.valid_iff :
    CSRF.valid mac token = true ↔ ∃ nonce, token = signed mac nonce ∧ '.' ∉ nonce ∧ nonce ≠ [] := by
  constructor
  · intro accepted
    unfold CSRF.valid at accepted
    split at accepted
    · cases accepted
    · rename_i nonce sig found
      obtain ⟨rfl, fresh⟩ := Text.cut_eq_some_iff.mp found
      obtain ⟨nonempty, _, rfl⟩ := of_decide_eq_true accepted
      exact ⟨nonce, rfl, fresh, nonempty⟩
  · rintro ⟨nonce, rfl, fresh, nonempty⟩
    have found : Text.cut '.' (signed mac nonce) = some (nonce, sign mac nonce) :=
      Text.cut_eq_some_iff.mpr ⟨rfl, fresh⟩
    rw [CSRF.valid, found]
    exact decide_eq_true ⟨nonempty, sign_ne_nil nonce, rfl⟩

theorem PendingAuth.verify_issue {username : List UInt8} (unexpired : now ≤ expiry PendingAuth.ttl time) :
    PendingAuth.verify mac now (PendingAuth.issue mac time username) = some username :=
  PendingAuth.verify_eq_some_iff.mpr ⟨_, _, _, rfl, dot_not_mem_encode _, atoi_expiry _ _, unexpired,
    Base64.decode_encode username⟩

theorem OIDCState.verify_issue (unexpired : now ≤ expiry OIDCState.ttl time) :
    OIDCState.verify mac now (OIDCState.issue mac time verifier nonce) = some (verifier, nonce) :=
  OIDCState.verify_eq_some_iff.mpr ⟨_, _, _, _, by rw [OIDCState.issue, OIDCState.payload_eq], dot_not_mem_encode _,
    dot_not_mem_encode _, dot_not_mem_itoa _, atoi_expiry _ _, unexpired, Base64.decode_encode verifier,
    Base64.decode_encode nonce⟩

theorem CSRF.valid_issue (nonce : Vector UInt8 16) : CSRF.valid mac (signed mac (CSRF.payload nonce)) = true := by
  refine CSRF.valid_iff.mpr ⟨_, rfl, dot_not_mem_encode _, fun empty => ?_⟩
  have length := nonce.length_toList
  rw [Base64.encode_eq_nil_iff.mp empty] at length
  cases length

section
variable {log : List Issued} (assembled : Assembled mac log token)
include assembled

theorem PendingAuth.issued_of_verify {user : List UInt8} (accepted : PendingAuth.verify mac now token = some user) :
    ∃ time, .pending time user ∈ log ∧ token = PendingAuth.issue mac time user ∧ now ≤ expiry PendingAuth.ttl time := by
  obtain ⟨userB64, expStr, exp, rfl, fresh, read, unexpired, decoded⟩ := PendingAuth.verify_eq_some_iff.mp accepted
  have plain : '.' ∉ expStr := dot_not_mem_of_readSigned (Option.filter_eq_some_iff.mp read).1
  obtain ⟨issued, logged, same⟩ := assembled _ rfl
  obtain ⟨time, username, rfl, rfl, rfl⟩ := pending_of_payload same fresh plain
  rw [atoi_expiry] at read
  rw [Base64.decode_encode] at decoded
  obtain rfl := Option.some.inj read
  obtain rfl := Option.some.inj decoded
  exact ⟨time, logged, rfl, unexpired⟩

theorem OIDCState.issued_of_verify (accepted : OIDCState.verify mac now token = some (verifier, nonce)) :
    ∃ time, .oidc time verifier nonce ∈ log ∧ token = OIDCState.issue mac time verifier nonce ∧
      now ≤ expiry OIDCState.ttl time := by
  obtain ⟨verifierB64, nonceB64, expStr, exp, rfl, first, second, _, read, unexpired, decoded, decoded'⟩ :=
    OIDCState.verify_eq_some_iff.mp accepted
  obtain ⟨issued, logged, same⟩ := assembled _ rfl
  obtain ⟨time, verifier', nonce', rfl, rfl, rfl, rfl⟩ := oidc_of_payload same first second
  rw [atoi_expiry] at read
  rw [Base64.decode_encode] at decoded decoded'
  obtain rfl := Option.some.inj read
  obtain rfl := Option.some.inj decoded
  obtain rfl := Option.some.inj decoded'
  exact ⟨time, logged, by rw [OIDCState.issue, OIDCState.payload_eq], unexpired⟩

theorem CSRF.issued_of_valid (accepted : CSRF.valid mac token = true) :
    ∃ nonce, .csrf nonce ∈ log ∧ CSRF.issue mac (.ok nonce) = .ok token := by
  obtain ⟨payload, rfl, fresh, _⟩ := CSRF.valid_iff.mp accepted
  obtain ⟨issued, logged, rfl⟩ := assembled _ rfl
  obtain ⟨nonce, rfl⟩ := csrf_of_payload fresh
  exact ⟨nonce, logged, rfl⟩

end

end

/-- Each of the three accepts its own tokens only: what is accepted has been
issued by the same issuer as it is, has not expired, and gives back what was
issued; and what is issued is accepted until it expires. -/
theorem tokens_separated (mac : Text → Vector UInt8 32) (log : List Issued) (token : Text)
    (assembled : Assembled mac log token) :
    (∀ now user, PendingAuth.verify mac now token = some user →
      ∃ time, .pending time user ∈ log ∧ token = PendingAuth.issue mac time user ∧
        now ≤ expiry PendingAuth.ttl time) ∧
    (∀ now verifier nonce, OIDCState.verify mac now token = some (verifier, nonce) →
      ∃ time, .oidc time verifier nonce ∈ log ∧ token = OIDCState.issue mac time verifier nonce ∧
        now ≤ expiry OIDCState.ttl time) ∧
    (CSRF.valid mac token = true → ∃ nonce, .csrf nonce ∈ log ∧ CSRF.issue mac (.ok nonce) = .ok token) ∧
    (∀ time now username, now ≤ expiry PendingAuth.ttl time →
      PendingAuth.verify mac now (PendingAuth.issue mac time username) = some username) ∧
    (∀ time now verifier nonce, now ≤ expiry OIDCState.ttl time →
      OIDCState.verify mac now (OIDCState.issue mac time verifier nonce) = some (verifier, nonce)) ∧
    (∀ nonce token, CSRF.issue mac (.ok nonce) = .ok token → CSRF.valid mac token = true) := by
  refine ⟨fun now user => PendingAuth.issued_of_verify assembled,
    fun now verifier nonce => OIDCState.issued_of_verify assembled, CSRF.issued_of_valid assembled,
    fun time now username => PendingAuth.verify_issue, fun time now verifier nonce => OIDCState.verify_issue, ?_⟩
  intro nonce token issue
  obtain rfl := Except.ok.inj issue
  exact CSRF.valid_issue nonce

def sampleMac (payload : Text) : Vector UInt8 32 :=
  Vector.ofFn fun i => UInt8.ofNat (payload.foldl (fun acc c => acc * 31 + c.toNat) (i.val + 1))

def alice : List UInt8 := [97, 108, 105, 99, 101]

/-- A pending login of alice, beside a form token. -/
theorem tokens_separated_sample :
    PendingAuth.verify sampleMac 1000 (PendingAuth.issue sampleMac 900 alice) = some alice ∧
      ∃ time, .pending time alice ∈ [Issued.csrf (Vector.replicate 16 7), .pending 900 alice] ∧
        PendingAuth.issue sampleMac 900 alice = PendingAuth.issue sampleMac time alice ∧
        1000 ≤ expiry PendingAuth.ttl time := by
  have known : Assembled sampleMac [.csrf (Vector.replicate 16 7), .pending 900 alice]
      (PendingAuth.issue sampleMac 900 alice) := assembled_of_issued (List.mem_cons_of_mem _ List.mem_cons_self)
  have separated := tokens_separated sampleMac [.csrf (Vector.replicate 16 7), .pending 900 alice]
    (PendingAuth.issue sampleMac 900 alice) known
  have accepted := separated.2.2.2.1 900 1000 alice (by decide)
  exact ⟨accepted, separated.1 1000 alice accepted⟩

end Protean.Token
