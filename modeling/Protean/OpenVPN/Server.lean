import Protean.OpenVPN.Clients
import Protean.Run

namespace Protean.OpenVPN
open Cert (Crypto CA sanitizeName)

structure ServerOptions where
  publicHost : Text
  listenPort : Int
  proto : Text
  mtu : Int
  mssfix : Int
  deriving DecidableEq, Repr

/-- What a client's profile is made of. -/
structure BundleParams where
  remoteHost : Text
  remotePort : Int
  proto : Text
  dev : Text := []
  cipher : Text := []
  tunMTU : Int
  mssfix : Int
  caCertPEM : Text
  clientCertPEM : Text
  clientKeyPEM : Text
  tlsCryptPEM : Text
  deriving DecidableEq, Repr

def orElse (t default : Text) : Text := if t = [] then default else t

/-- `strings.TrimRight(t, "\n")`. -/
def trimNewlines (t : Text) : Text := (t.reverse.dropWhile (· = '\n')).reverse

def inlined (tag pem : Text) : Text :=
  '<' :: tag ++ ">\n".toList ++ trimNewlines pem ++ "\n</".toList ++ tag ++ ">\n".toList

def sized (name : Text) (n : Int) : List Text := if 0 < n then [name ++ ' ' :: Text.itoa n] else []

/-- The lines before the certificates. -/
def BundleParams.directives (p : BundleParams) : List Text :=
  ["client".toList, "dev ".toList ++ orElse p.dev "tun".toList, "proto ".toList ++ orElse p.proto "udp".toList,
    "remote ".toList ++ p.remoteHost ++ ' ' :: Text.itoa p.remotePort] ++
  sized "tun-mtu".toList p.tunMTU ++ sized "mssfix".toList p.mssfix ++
  ["resolv-retry infinite".toList, "nobind".toList, "persist-key".toList, "persist-tun".toList,
    "remote-cert-tls server".toList, "data-ciphers ".toList ++ orElse p.cipher "AES-256-GCM".toList,
    "data-ciphers-fallback ".toList ++ orElse p.cipher "AES-256-GCM".toList, "verb 3".toList]

/-- Without a key on the server the client has its own. -/
def BundleParams.keyPart (p : BundleParams) : Text :=
  if p.clientKeyPEM ≠ [] then inlined "key".toList p.clientKeyPEM
  else "# This profile was issued from your CSR; the private key stays on\n".toList ++
    "# your device. Add it, e.g.:  key /path/to/your.key\n".toList

def BundleParams.build (p : BundleParams) : Text :=
  Text.unlines p.directives ++ inlined "ca".toList p.caCertPEM ++ inlined "cert".toList p.clientCertPEM ++ p.keyPart ++
    if p.tlsCryptPEM ≠ [] then inlined "tls-crypt".toList p.tlsCryptPEM else []

def staticKey : Text := "OpenVPN Static key".toList

/-- A text with a key in it. -/
def holdsKey (t : Text) : Bool := staticKey <:+: t

def hexByte (b : UInt8) : Text := [Inet.hexDigit (b.toNat / 16), Inet.hexDigit (b.toNat % 16)]

/-- Lines of 16 bytes. -/
def hexLines : Nat → List UInt8 → Text
  | 0, _ => []
  | n + 1, bytes => (bytes.take 16).flatMap hexByte ++ '\n' :: hexLines n (bytes.drop 16)

def keyHeader : Text := "-----BEGIN OpenVPN Static key V1-----\n".toList

def keyFooter : Text := "-----END OpenVPN Static key V1-----\n".toList

/-- The key in text, from the 256 bytes that were drawn. -/
def genTLSCrypt (bytes : List UInt8) : Text := keyHeader ++ hexLines 16 bytes ++ keyFooter

/-- The file with the key on the host. -/
structure Host where
  tlsCrypt : Option Text
  deriving DecidableEq, Repr

/-- What the world does to one call. The files that come before the key and the
steps that come after it may fail; of a client its row is read. -/
structure ServerEnv where
  ca : Option CA := none
  client : Option Client := none
  issueServer : Bool := true
  readKey : Bool := true
  drawn : Option (List UInt8) := none
  prepare : Bool := true
  writeKey : Outcome := .ok
  finish : Bool := true

section
variable (opts : ServerOptions) (crypto : Crypto) (env : ServerEnv)

def readKey : Proc Host Text := Proc.read fun h => if env.readKey then h.tlsCrypt else none

/-- The key that is there, or a new one: a failed read is taken for no key. -/
def tlsCryptKey : Proc Host Text := do
  match ← Proc.attempt (readKey env) with
  | some tlsCrypt => if holdsKey tlsCrypt then return tlsCrypt else Proc.lift (env.drawn.map genTLSCrypt)
  | none => Proc.lift (env.drawn.map genTLSCrypt)

/-- Certificates, revocation list and configuration are written around the key;
a file that is written ends with one more newline than the text. -/
def ensureServer : Proc Host Unit := do
  let _ ← Proc.lift env.ca
  Proc.guard env.issueServer
  let tlsCrypt ← tlsCryptKey env
  Proc.guard env.prepare
  Proc.write env.writeKey fun h => { h with tlsCrypt := some (tlsCrypt ++ ['\n']) }
  Proc.guard env.finish

/-- A failed read leaves the key out of the profile. -/
def clientConfigFile (id : Text) : Proc Host (Text × Text) := do
  let ca ← Proc.lift env.ca
  let row ← Proc.lift env.client
  let keyPEM ← Proc.lift (if row.encKeyPEM = [] then some [] else crypto.openText row.encKeyPEM)
  let tlsCrypt ← Proc.attempt (readKey env)
  let bundle : BundleParams :=
    { remoteHost := opts.publicHost, remotePort := opts.listenPort, proto := opts.proto, tunMTU := opts.mtu,
      mssfix := opts.mssfix, caCertPEM := ca.certPEM, clientCertPEM := row.certPEM, clientKeyPEM := keyPEM,
      tlsCryptPEM := tlsCrypt.getD [] }
  return (sanitizeName id ++ ".ovpn".toList, bundle.build)

end

inductive Call
  | ensureServer
  | clientConfigFile (id : Text)
  deriving DecidableEq, Repr

/-- Only the set-up of the server writes to the host. -/
def serverStep (h : Host) (e : Call × ServerEnv) : Host :=
  match e.1 with
  | .ensureServer => ((ensureServer e.2).exec h).2
  | .clientConfigFile _ => h

/-- The key on the host, if the file holds one. -/
def Host.key (h : Host) : Option Text := (h.tlsCrypt.filter holdsKey).map trimNewlines

/-- The set-up went through. -/
def Succeeds (h : Host) (e : Call × ServerEnv) : Prop := e.1 = .ensureServer ∧ ((ensureServer e.2).exec h).1 = some ()

/-- A key that was on the host is there after every later set-up. -/
def KeyStays (h : Host) (calls : List (Call × ServerEnv)) : Prop :=
  ∀ before mid e rest key, calls = before ++ (mid ++ e :: rest) → (Run.after serverStep h before).key = some key →
    Succeeds (Run.after serverStep h (before ++ mid)) e → (Run.after serverStep h (before ++ (mid ++ [e]))).key = some key

/-- The profile ends with this key. -/
def Carries (bundle key : Text) : Prop := "<tls-crypt>\n".toList ++ key ++ "\n</tls-crypt>\n".toList <:+ bundle

/-- Every profile that is handed out has the key of the host. -/
def BundlesCarry (opts : ServerOptions) (crypto : Crypto) (h : Host) (calls : List (Call × ServerEnv)) : Prop :=
  ∀ before id env rest bundle key, calls = before ++ (.clientConfigFile id, env) :: rest →
    ((clientConfigFile opts crypto env id).exec (Run.after serverStep h before)).1 = some bundle →
      (Run.after serverStep h before).key = some key → Carries bundle.2 key

/-- The key is there and cannot be read, and another is written over it. -/
structure Replaces (h : Host) (e : Call × ServerEnv) (key : Text) (bytes : List UInt8) : Prop where
  call : e.1 = .ensureServer
  there : h.key = some key
  unread : e.2.readKey = false
  drawn : e.2.drawn = some bytes
  reached : e.2.ca.isSome = true ∧ e.2.issueServer = true ∧ e.2.prepare = true ∧ e.2.writeKey ≠ .failed
  other : trimNewlines (genTLSCrypt bytes) ≠ key

/-- After a key was replaced no set-up goes through, not even the one that did it. -/
def NoReplacement (h : Host) (calls : List (Call × ServerEnv)) : Prop :=
  ∀ before e rest key bytes, calls = before ++ e :: rest → Replaces (Run.after serverStep h before) e key bytes →
    ∀ mid e' rest', e :: rest = mid ++ e' :: rest' → ¬ Succeeds (Run.after serverStep h (before ++ mid)) e'

/-- A profile is handed out only if the key could be read. -/
def BundlesRead (opts : ServerOptions) (crypto : Crypto) (h : Host) (calls : List (Call × ServerEnv)) : Prop :=
  ∀ before id env rest bundle key, calls = before ++ (.clientConfigFile id, env) :: rest →
    ((clientConfigFile opts crypto env id).exec (Run.after serverStep h before)).1 = some bundle →
      (Run.after serverStep h before).key = some key → env.readKey = true

section
variable {t key : Text} {h : Host} {env : ServerEnv} {bytes : List UInt8}

theorem trimNewlines_newline (t : Text) : trimNewlines (t ++ ['\n']) = trimNewlines t := by
  rw [trimNewlines, List.reverse_append, List.reverse_singleton, List.singleton_append,
    List.dropWhile_cons_of_pos (by decide), trimNewlines]

theorem holdsKey_newline (holds : holdsKey t = true) : holdsKey (t ++ ['\n']) = true := by
  rw [holdsKey, decide_eq_true_iff] at holds ⊢
  exact holds.trans (List.prefix_append t _).isInfix

theorem holdsKey_genTLSCrypt (bytes : List UInt8) : holdsKey (genTLSCrypt bytes) = true := by
  have heading : staticKey <:+: keyHeader := by decide +kernel
  rw [holdsKey, decide_eq_true_iff, genTLSCrypt, List.append_assoc]
  exact heading.trans (List.prefix_append _ _).isInfix

/-- The key of a file that was just written. -/
theorem key_written (holds : holdsKey t = true) : (Host.mk (some (t ++ ['\n']))).key = some (trimNewlines t) := by
  rw [Host.key, Option.filter_some, if_pos (holdsKey_newline holds), Option.map_some, trimNewlines_newline]

theorem key_eq_some_iff : h.key = some key ↔ ∃ t, h.tlsCrypt = some t ∧ holdsKey t = true ∧ trimNewlines t = key := by
  rw [Host.key, Option.map_eq_some_iff]
  simp only [Option.filter_eq_some_iff, and_assoc]

/-- What is going to be written for the key. -/
def chosen (env : ServerEnv) (h : Host) : Option Text :=
  ((if env.readKey then h.tlsCrypt else none).filter holdsKey).or (env.drawn.map genTLSCrypt)

theorem exec_tlsCryptKey : (tlsCryptKey env).exec h = (chosen env h, h) := by
  have read : (Proc.attempt (readKey env)).exec h = (some (if env.readKey then h.tlsCrypt else none), h) := rfl
  rw [tlsCryptKey, Proc.exec_bind, read, chosen]
  cases (if env.readKey then h.tlsCrypt else none) with
  | none => rfl
  | some t =>
    rw [Option.filter_some]
    cases holds : holdsKey t <;> simp [holds]

theorem exec_ensureServer :
    (ensureServer env).exec h =
      if env.ca.isSome = true ∧ env.issueServer = true ∧ env.prepare = true then
        match chosen env h with
        | none => (none, h)
        | some t => (if env.writeKey = .ok ∧ env.finish = true then some () else none,
            if env.writeKey = .failed then h else ⟨some (t ++ ['\n'])⟩)
      else (none, h) := by
  have chosen' : (tlsCryptKey env).exec h = (chosen env h, h) := exec_tlsCryptKey
  rw [ensureServer, Proc.exec_lift_bind]
  cases env.ca with
  | none => simp
  | some ca =>
    rw [Proc.exec_guard_bind]
    cases env.issueServer with
    | false => simp
    | true =>
      simp only [if_true, Proc.exec_bind, chosen']
      cases chosen env h with
      | none => simp
      | some t =>
        cases env.prepare with
        | false => simp
        | true => cases env.writeKey <;> cases env.finish <;> rfl

/-- A key on the host stays, or it could not be read and another is in its place. -/
theorem key_after_ensureServer (there : h.key = some key) :
    ((ensureServer env).exec h).2.key = some key ∨
      ∃ bytes, Replaces h (.ensureServer, env) key bytes ∧
        ((ensureServer env).exec h).2.key = some (trimNewlines (genTLSCrypt bytes)) := by
  obtain ⟨t, file, holds, trimmed⟩ := key_eq_some_iff.mp there
  rw [exec_ensureServer]
  split
  case isFalse => exact .inl there
  rename_i reached
  cases choice : chosen env h with
  | none => exact .inl there
  | some u =>
    dsimp only
    split
    case isTrue => exact .inl there
    rename_i written
    cases read : env.readKey with
    | true =>
      have same : u = t := by
        rw [chosen, read, if_pos rfl, file, Option.filter_some, if_pos holds] at choice
        exact (Option.some.inj choice).symm
      rw [same, key_written holds, trimmed]
      exact .inl rfl
    | false =>
      rw [chosen, read, if_neg (by decide), Option.filter_none, Option.none_or, Option.map_eq_some_iff] at choice
      obtain ⟨bytes, drawn, rfl⟩ := choice
      rw [key_written (holdsKey_genTLSCrypt bytes)]
      by_cases same : trimNewlines (genTLSCrypt bytes) = key
      · exact .inl (by rw [same])
      · exact .inr ⟨bytes, ⟨rfl, there, read, drawn, ⟨reached.1, reached.2.1, reached.2.2, written⟩, same⟩, rfl⟩

theorem key_of_replaces {e : Call × ServerEnv} (replaces : Replaces h e key bytes) :
    (serverStep h e).key = some (trimNewlines (genTLSCrypt bytes)) := by
  obtain ⟨call, env⟩ := e
  obtain rfl : call = .ensureServer := replaces.call
  have choice : chosen env h = some (genTLSCrypt bytes) := by
    rw [chosen, show env.readKey = false from replaces.unread, if_neg (by decide), Option.filter_none, Option.none_or,
      show env.drawn = some bytes from replaces.drawn, Option.map_some]
  have reached := replaces.reached
  rw [serverStep]
  dsimp only at reached ⊢
  rw [exec_ensureServer, if_pos ⟨reached.1, reached.2.1, reached.2.2.1⟩, choice]
  dsimp only
  rw [if_neg reached.2.2.2, key_written (holdsKey_genTLSCrypt bytes)]

theorem key_step (e : Call × ServerEnv) (there : h.key = some key) (keeps : ∀ bytes, ¬ Replaces h e key bytes) :
    (serverStep h e).key = some key := by
  obtain ⟨call, env⟩ := e
  cases call with
  | clientConfigFile id => exact there
  | ensureServer =>
    have cases' : ((ensureServer env).exec h).2.key = some key ∨ _ := key_after_ensureServer there
    rcases cases' with stays | ⟨bytes, replaces, -⟩
    · exact stays
    · exact absurd replaces (keeps bytes)

theorem key_after {calls : List (Call × ServerEnv)} (there : h.key = some key)
    (keeps : ∀ before e rest bytes, calls = before ++ e :: rest → ¬ Replaces (Run.after serverStep h before) e key bytes) :
    (Run.after serverStep h calls).key = some key := by
  induction calls generalizing h with
  | nil => exact there
  | cons e calls ih =>
    refine ih (key_step e there fun bytes => keeps [] e calls bytes rfl) fun before e' rest bytes split => ?_
    exact keeps (e :: before) e' rest bytes (by rw [split, List.cons_append])

end

/-- No key is lost for later set-ups exactly when none is replaced before one. -/
theorem keyStays_iff {h : Host} {calls : List (Call × ServerEnv)} : KeyStays h calls ↔ NoReplacement h calls := by
  constructor
  · intro stays before e rest key bytes split replaces mid e' rest' later succeeds
    have whole : calls = before ++ (mid ++ e' :: rest') := by rw [split, later]
    have first := stays before mid e' rest' key whole replaces.there succeeds
    cases mid with
    | nil =>
      -- the set-up that wrote over the key is the one that goes through
      obtain ⟨rfl, rfl⟩ := List.cons.inj later
      rw [List.nil_append, Run.after_concat, key_of_replaces replaces] at first
      exact replaces.other (Option.some.inj first)
    | cons _ mid =>
      obtain ⟨rfl, rfl⟩ := List.cons.inj later
      have there : (Run.after serverStep h (before ++ [e])).key = some (trimNewlines (genTLSCrypt bytes)) := by
        rw [Run.after_concat, key_of_replaces replaces]
      have second := stays (before ++ [e]) mid e' rest' _ (by rw [whole]; simp) there (by simpa using succeeds)
      have same : before ++ [e] ++ (mid ++ [e']) = before ++ (e :: mid ++ [e']) := by simp
      rw [same, first] at second
      exact replaces.other (Option.some.inj second).symm
  · intro none' before mid e rest key split there succeeds
    rw [Run.after_append]
    refine key_after there fun earlier e' later bytes part replaces => ?_
    rw [← Run.after_append] at replaces
    -- the set-up that goes through is the call itself or a later one
    obtain ⟨mid', joined, following⟩ : ∃ mid', mid = earlier ++ mid' ∧ ∃ tail, e' :: tail = mid' ++ e :: rest := by
      rcases List.eq_nil_or_concat later with rfl | ⟨later', last, rfl⟩
      · obtain ⟨same, one⟩ := List.append_inj' part rfl
        exact ⟨[], by rw [same, List.append_nil], rest, by rw [(List.cons.inj one).1]; rfl⟩
      · have longer : mid ++ [e] = earlier ++ e' :: later' ++ [last] := by rw [part]; simp
        obtain ⟨same, one⟩ := List.append_inj' longer rfl
        exact ⟨e' :: later', same, later' ++ e :: rest, by rw [List.cons_append]⟩
    obtain ⟨tail, following⟩ := following
    refine none' (before ++ earlier) e' tail key bytes ?_ replaces mid' e rest following ?_
    · rw [split, joined, following]; simp
    · rwa [List.append_assoc, ← joined]

section
variable {opts : ServerOptions} {crypto : Crypto} {env : ServerEnv} {h : Host} {p : BundleParams} {key : Text}

/-- A text has one ending. -/
theorem not_suffix_of_suffix {a b t : Text} (length : a.length = b.length) (different : a ≠ b) (ends : a <:+ t) :
    ¬ b <:+ t := by
  intro other
  exact different ((List.suffix_of_suffix_length_le ends other length.le).eq_of_length length)

/-- A profile without the key ends in another way. -/
theorem not_carries_of_no_key (none' : p.tlsCryptPEM = []) : ¬ Carries p.build key := by
  intro carries
  have tail : "t>\n".toList <:+ p.build :=
    (show "t>\n".toList <:+ "\n</tls-crypt>\n".toList by decide +kernel).trans ((List.suffix_append _ _).trans carries)
  have whole : p.keyPart <:+ p.build := by
    rw [BundleParams.build, if_neg (not_not.mpr none'), List.append_nil]
    exact List.suffix_append _ _
  by_cases held : p.clientKeyPEM = []
  · have ends : "ey\n".toList <:+ p.keyPart := by
      rw [BundleParams.keyPart, if_neg (not_not.mpr held)]
      exact (show "ey\n".toList <:+ "# your device. Add it, e.g.:  key /path/to/your.key\n".toList by decide +kernel).trans
        (List.suffix_append _ _)
    exact not_suffix_of_suffix (by decide) (by decide) (ends.trans whole) tail
  · have ends : "y>\n".toList <:+ p.keyPart := by
      rw [BundleParams.keyPart, if_pos held, inlined]
      exact ⟨"<key>\n".toList ++ trimNewlines p.clientKeyPEM ++ "\n</ke".toList, by simp⟩
    exact not_suffix_of_suffix (by decide) (by decide) (ends.trans whole) tail

theorem carries_of_key (held : p.tlsCryptPEM ≠ []) : Carries p.build (trimNewlines p.tlsCryptPEM) := by
  have same : "<tls-crypt>\n".toList ++ trimNewlines p.tlsCryptPEM ++ "\n</tls-crypt>\n".toList =
      inlined "tls-crypt".toList p.tlsCryptPEM := by
    rw [inlined]
    simp
  rw [Carries, same, BundleParams.build, if_pos held]
  exact List.suffix_append _ _

/-- A profile is built over what could be read of the key. -/
def BuiltOver (read : Option Text) (bundle : Text × Text) : Prop :=
  ∃ p : BundleParams, bundle.2 = p.build ∧ p.tlsCryptPEM = read.getD []

theorem builtOver_of_clientConfigFile {id : Text} {bundle : Text × Text}
    (answer : ((clientConfigFile opts crypto env id).exec h).1 = some bundle) :
    BuiltOver (if env.readKey then h.tlsCrypt else none) bundle := by
  have built : Proc.Triple (· = h) (clientConfigFile opts crypto env id)
      (fun b _ => BuiltOver (if env.readKey then h.tlsCrypt else none) b) fun _ => True := by
    refine Proc.Triple.lift_bind (fun _ _ _ => trivial) fun ca _ => ?_
    refine Proc.Triple.lift_bind (fun _ _ _ => trivial) fun row _ => ?_
    refine Proc.Triple.lift_bind (fun _ _ _ => trivial) fun keyPEM _ => ?_
    refine Proc.Triple.bind (Q := fun o _ => o = if env.readKey then h.tlsCrypt else none) ?_ fun read => ?_
    · refine Proc.Triple.attempt (Proc.Triple.read ?_ ?_)
      · rintro t s found rfl
        exact found.symm
      · rintro s missing rfl
        exact missing.symm
    · refine Proc.Triple.pure fun s same => ?_
      exact ⟨_, rfl, by rw [same]⟩
  exact built.answer rfl answer

theorem carries_iff {id : Text} {bundle : Text × Text}
    (answer : ((clientConfigFile opts crypto env id).exec h).1 = some bundle) (there : h.key = some key) :
    Carries bundle.2 key ↔ env.readKey = true := by
  obtain ⟨t, file, holds, rfl⟩ := key_eq_some_iff.mp there
  obtain ⟨p, built, pem⟩ := builtOver_of_clientConfigFile answer
  rw [built]
  cases read : env.readKey with
  | false =>
    rw [read, if_neg (by decide), Option.getD_none] at pem
    exact iff_of_false (not_carries_of_no_key pem) (by decide)
  | true =>
    rw [read, if_pos rfl, file, Option.getD_some] at pem
    have filled : p.tlsCryptPEM ≠ [] := by
      rintro empty
      rw [← pem, empty] at holds
      exact absurd holds (by decide)
    exact iff_of_true (pem ▸ carries_of_key filled) rfl

theorem bundlesCarry_iff {calls : List (Call × ServerEnv)} :
    BundlesCarry opts crypto h calls ↔ BundlesRead opts crypto h calls := by
  constructor
  · intro carry before id env rest bundle key split answer there
    exact (carries_iff answer there).mp (carry before id env rest bundle key split answer there)
  · intro read before id env rest bundle key split answer there
    exact (carries_iff answer there).mpr (read before id env rest bundle key split answer there)

end

/-- Over every run of set-ups and profiles, the key outlives the set-ups and is in
every profile exactly when no set-up that could not read it goes on to write
another, and no profile is handed out while it cannot be read. -/
theorem reprovision_keeps_key_iff (opts : ServerOptions) (crypto : Crypto) (h : Host) (calls : List (Call × ServerEnv)) :
    KeyStays h calls ∧ BundlesCarry opts crypto h calls ↔
      NoReplacement h calls ∧ BundlesRead opts crypto h calls := by
  rw [keyStays_iff, bundlesCarry_iff]

/-- The key is on the host and its file cannot be read for once. -/
def unreadable : ServerEnv where
  ca := some ⟨"ca1".toList, "key1".toList⟩
  client := some ⟨"cert".toList, [], [], []⟩
  readKey := false
  drawn := some (List.replicate 256 2)

def keyed : Host := ⟨some (genTLSCrypt (List.replicate 256 1))⟩

/-- The set-up reports success and the profiles that were handed out are void; a
profile made at such a time has no key. -/
theorem failed_read_replaces_key :
    keyed.key = some (trimNewlines (genTLSCrypt (List.replicate 256 1))) ∧
      ((ensureServer unreadable).exec keyed).1 = some () ∧
      ((ensureServer unreadable).exec keyed).2.key = some (trimNewlines (genTLSCrypt (List.replicate 256 2))) ∧
      ¬ KeyStays keyed [(.ensureServer, unreadable)] ∧
      ¬ BundlesCarry ⟨"vpn.example".toList, 1194, "udp".toList, 0, 0⟩ Cert.sampleCrypto keyed [(.clientConfigFile "alice".toList, unreadable)] := by
  have there : keyed.key = some (trimNewlines (genTLSCrypt (List.replicate 256 1))) := by decide +kernel
  have done : ((ensureServer unreadable).exec keyed).1 = some () := by decide +kernel
  have replaced : ((ensureServer unreadable).exec keyed).2.key = some (trimNewlines (genTLSCrypt (List.replicate 256 2))) := by
    decide +kernel
  have other : trimNewlines (genTLSCrypt (List.replicate 256 2)) ≠ trimNewlines (genTLSCrypt (List.replicate 256 1)) := by
    decide +kernel
  refine ⟨there, done, replaced, fun stays => ?_, fun carry => ?_⟩
  · have kept := stays [] [] (.ensureServer, unreadable) [] _ rfl there ⟨rfl, done⟩
    exact other (Option.some.inj (replaced.symm.trans kept))
  · have read := bundlesCarry_iff.mp carry [] "alice".toList unreadable [] _ _ rfl rfl there
    exact absurd read (by decide)

end Protean.OpenVPN
