import Protean.OpenVPN.Clients

namespace Protean.OpenVPN
open Cert (Crypto CA Enrollable verifyClientCert)
open Proc (Triple Keeps)
open WgFamily (validPeerName)

/-- The calls for one client. -/
inductive Op
  | addPeer (name : Text) (allowedIPs : List Text)
  | addPeerFromCSR (csrPEM name : Text) (allowedIPs : List Text)
  | importPeer (certPEM keyPEM : Text)
  | updatePeer (id : Text) (allowedIPs : List Text)
  | removePeer (id : Text)
  deriving DecidableEq, Repr

/-- The client that a call is for. -/
def Op.client (crypto : Crypto) (env : Env) : Op → Option Text
  | .addPeer name _ => some (Text.trimSpace name)
  | .addPeerFromCSR _ name _ => some (Text.trimSpace name)
  | .importPeer certPEM _ => env.ca.bind fun ca => verifyClientCert crypto ca (Text.trimSpace certPEM)
  | .updatePeer id _ => some id
  | .removePeer id => some id

def run (opts : Options) (crypto : Crypto) (env : Env) : Op → Proc State Unit
  | .addPeer name allowedIPs => do
    let _ ← addPeer opts crypto env name allowedIPs
  | .addPeerFromCSR csrPEM name allowedIPs => do
    let _ ← addPeerFromCSR opts crypto env csrPEM name allowedIPs
  | .importPeer certPEM keyPEM => do
    let _ ← importPeer opts crypto env certPEM keyPEM
  | .updatePeer id allowedIPs => updatePeer opts env id allowedIPs
  | .removePeer id => removePeer opts env id

/-- A call for the client writes or removes the file at this path. -/
def Touches (opts : Options) (crypto : Crypto) (cn path : Text) : Prop :=
  ∃ op env s, Op.client crypto env op = some cn ∧ s.touched = [] ∧ path ∈ ((run opts crypto env op).exec s).2.touched

/-- No slash, no zero byte, and not one of the two names of directories. -/
structure FileName (name : Text) : Prop where
  single : '/' ∉ name
  noNul : '\x00' ∉ name
  notSelf : name ≠ ".".toList
  notParent : name ≠ "..".toList

/-- The directory, followed by one component. -/
def DirectlyIn (dir path : Text) : Prop := ∃ name, path = dir ++ '/' :: name ∧ name ≠ [] ∧ FileName name

/-- One component of a path, from the directory it is taken in. -/
def enter (dir : List Text) (part : Text) : List Text :=
  if part = [] ∨ part = ".".toList then dir else if part = "..".toList then dir.dropLast else dir ++ [part]

/-- The file that a path leads to, when no link is on the way. -/
def resolve (path : Text) : List Text := (path.splitOn '/').foldl enter []

/-- Whatever the rest of it, a name is the last component of a path. -/
theorem splitOn_path {dir cn : Text} (single : '/' ∉ cn) : (dir ++ '/' :: cn).splitOn '/' = dir.splitOn '/' ++ [cn] := by
  have joined : ∀ parts : List Text, parts ≠ [] → ['/'].intercalate (parts ++ [cn]) = ['/'].intercalate parts ++ '/' :: cn := by
    intro parts some'
    induction parts with
    | nil => exact absurd rfl some'
    | cons part parts ih =>
      cases parts with
      | nil => simp
      | cons next parts =>
        rw [List.cons_append, List.cons_append, List.intercalate_cons_cons, ← List.cons_append, ih (List.cons_ne_nil _ _),
          List.intercalate_cons_cons]
        simp
  have whole : ['/'].intercalate (dir.splitOn '/') = dir := List.intercalate_splitOn '/'
  rw [Text.splitOn_eq_iff (by simp), joined _ (List.splitOn_ne_nil '/' dir), whole]
  refine ⟨rfl, fun part inside => ?_⟩
  rcases List.mem_append.mp inside with old | last
  · exact Text.not_mem_of_mem_splitOn old
  · exact List.mem_singleton.mp last ▸ single

theorem resolve_path {dir cn : Text} (written : cn ≠ []) (name : FileName cn) :
    resolve (dir ++ '/' :: cn) = resolve dir ++ [cn] := by
  have solid : ¬ (cn = [] ∨ cn = ".".toList) := not_or.mpr ⟨written, name.notSelf⟩
  rw [resolve, splitOn_path name.single, List.foldl_append, List.foldl_cons, List.foldl_nil, enter, if_neg solid,
    if_neg name.notParent, resolve]

section
variable {opts : Options} {crypto : Crypto} {env : Env} {cn path : Text}

/-- Only the file of this client was written or removed. -/
def Only (opts : Options) (cn : Text) (s : State) : Prop := ∀ path ∈ s.touched, path = ccdPath opts cn

theorem only_append {s : State} (only : Only opts cn s) : ∀ path ∈ s.touched ++ [ccdPath opts cn], path = ccdPath opts cn := by
  intro path inside
  rcases List.mem_append.mp inside with old | new
  · exact only path old
  · exact List.mem_singleton.mp new

theorem keeps_storeClient {certPEM address : Text} {encKeyPEM : Option Text} {subnets : List Text} :
    Keeps (Only opts cn) (storeClient opts env cn certPEM encKeyPEM address subnets) := by
  have file : Keeps (Only opts cn) (writeCCD opts env cn address subnets) := Keeps.write fun _ only => only_append only
  have row : Keeps (Only opts cn) (saveClient env cn certPEM encKeyPEM address subnets) :=
    (Keeps.lift _).bind fun _ => Keeps.write fun _ only => only
  exact file.bind fun _ => row

theorem keeps_removePeer : Keeps (Only opts cn) (removePeer opts env cn) := by
  have file : Keeps (Only opts cn) (removeCCD opts env cn) := by
    refine Keeps.bind (Keeps.attempt ?_) fun _ => Keeps.pure _
    exact Keeps.write fun _ only => only_append only
  exact (Keeps.guard _).bind fun _ => file.bind fun _ => Keeps.write fun _ only => only

/-- Every call keeps to the file of the client it is for. -/
theorem keeps_run {op : Op} (own : Op.client crypto env op = some cn) : Keeps (Only opts cn) (run opts crypto env op) := by
  cases op with
  | addPeer name allowedIPs =>
    cases Option.some.inj own
    refine Keeps.bind ?_ fun _ => Keeps.pure _
    exact (Keeps.guard _).bind fun _ => (Keeps.lift _).bind fun _ => (Keeps.lift _).bind fun _ => (Keeps.lift _).bind fun _ =>
      keeps_storeClient.bind fun _ => Keeps.pure _
  | addPeerFromCSR csrPEM name allowedIPs =>
    cases Option.some.inj own
    refine Keeps.bind ?_ fun _ => Keeps.pure _
    exact (Keeps.guard _).bind fun _ => (Keeps.lift _).bind fun _ => (Keeps.lift _).bind fun _ =>
      keeps_storeClient.bind fun _ => Keeps.pure _
  | importPeer certPEM keyPEM =>
    refine Keeps.bind ?_ fun _ => Keeps.pure _
    refine Triple.lift_bind (fun _ _ only => only) fun ca known => Triple.lift_bind (fun _ _ only => only) fun cn' verified => ?_
    obtain rfl : cn' = cn := by
      rw [Op.client, known, Option.bind_some, verified] at own
      exact Option.some.inj own
    split
    · exact keeps_storeClient.bind fun _ => Keeps.pure _
    · exact (Keeps.guard _).bind fun _ => (Keeps.lift _).bind fun _ => keeps_storeClient.bind fun _ => Keeps.pure _
  | updatePeer id allowedIPs =>
    cases Option.some.inj own
    exact (Keeps.read _).bind fun _ => keeps_storeClient
  | removePeer id =>
    cases Option.some.inj own
    exact keeps_removePeer

/-- The one file that the calls for a client write and remove. -/
theorem touches_iff : Touches opts crypto cn path ↔ path = ccdPath opts cn := by
  constructor
  · rintro ⟨op, env, s, own, fresh, inside⟩
    have only : Only opts cn ((run opts crypto env op).exec s).2 := by
      refine (keeps_run own).state (fun _ _ only => only) ?_
      intro path inside
      rw [fresh] at inside
      cases inside
    exact only path inside
  · rintro rfl
    exact ⟨.removePeer cn, {}, ⟨KeyTable.empty, fun _ => none, []⟩, rfl, rfl, List.mem_singleton.mpr rfl⟩

theorem directlyIn_iff (written : cn ≠ []) : DirectlyIn opts.ccdDir (ccdPath opts cn) ↔ FileName cn := by
  constructor
  · rintro ⟨name, same, -, file⟩
    obtain rfl : cn = name := by simpa [ccdPath] using same
    exact file
  · exact fun file => ⟨cn, rfl, written, file⟩

end

section
variable {letterOrNumber : Char → Bool} {crypto : Crypto} {cn : Text}

theorem Enrollable.written (reaches : Enrollable letterOrNumber crypto cn) : cn ≠ [] := by
  cases reaches with
  | named valid trimmed =>
    rintro rfl
    exact absurd valid (by simp [validPeerName])
  | imported verified =>
    obtain ⟨-, checked⟩ := Option.filter_eq_some_iff.mp verified
    simp only [Bool.and_eq_true, decide_eq_true_eq] at checked
    exact checked.1

/-- A name that the panel checked has no slash and no zero byte. -/
theorem fileName_of_validPeerName (plain : ∀ c ∈ "/\x00".toList, letterOrNumber c = false)
    (valid : validPeerName letterOrNumber cn = true) : FileName cn ↔ cn ≠ ".".toList ∧ cn ≠ "..".toList := by
  simp only [validPeerName, Bool.and_eq_true, decide_eq_true_eq, List.all_eq_true, Bool.or_eq_true] at valid
  have apart : ∀ c ∈ "/\x00".toList, " ._@-".toList.contains c = false := by decide +kernel
  have outside : ∀ c ∈ "/\x00".toList, c ∉ cn := by
    intro c special inside
    rcases valid.2 c inside with class' | listed
    · rw [plain c special] at class'
      cases class'
    · rw [apart c special] at listed
      cases listed
  constructor
  · exact fun file => ⟨file.notSelf, file.notParent⟩
  · rintro ⟨notSelf, notParent⟩
    exact ⟨outside '/' (by decide), outside '\x00' (by decide), notSelf, notParent⟩

end

/-- The files of two clients are different entries of the directory exactly when
both names can be entries. Of the names that the panel checks, the two that stand
for directories cannot. -/
theorem client_files_iff (letterOrNumber : Char → Bool) (plain : ∀ c ∈ "/\x00".toList, letterOrNumber c = false)
    (crypto : Crypto) (opts : Options) (cn cn' : Text) (first : Enrollable letterOrNumber crypto cn)
    (second : Enrollable letterOrNumber crypto cn') (different : cn ≠ cn') :
    (((∀ path, Touches opts crypto cn path → DirectlyIn opts.ccdDir path) ∧
        (∀ path, Touches opts crypto cn' path → DirectlyIn opts.ccdDir path) ∧
        ∀ path path', Touches opts crypto cn path → Touches opts crypto cn' path' → resolve path ≠ resolve path') ↔
      FileName cn ∧ FileName cn') ∧
    (validPeerName letterOrNumber cn = true → (FileName cn ↔ cn ≠ ".".toList ∧ cn ≠ "..".toList)) := by
  have written := Enrollable.written first
  have written' := Enrollable.written second
  simp only [touches_iff, forall_eq, directlyIn_iff written, directlyIn_iff written']
  refine ⟨⟨fun holds => ⟨holds.1, holds.2.1⟩, fun holds => ⟨holds.1, holds.2, ?_⟩⟩, fileName_of_validPeerName plain⟩
  rintro path path' rfl rfl same
  rw [ccdPath, ccdPath, resolve_path written holds.1, resolve_path written' holds.2] at same
  exact different (List.singleton_inj.mp (List.append_cancel_left same))

def sampleOptions : Options := ⟨"/etc/openvpn/server/ccd".toList, "255.255.255.0".toList⟩

theorem client_files_sample :
    (∀ path, Touches sampleOptions Cert.sampleCrypto "alice".toList path → DirectlyIn sampleOptions.ccdDir path) ∧
      (∀ path, Touches sampleOptions Cert.sampleCrypto "bob".toList path → DirectlyIn sampleOptions.ccdDir path) ∧
      ∀ path path', Touches sampleOptions Cert.sampleCrypto "alice".toList path →
        Touches sampleOptions Cert.sampleCrypto "bob".toList path' → resolve path ≠ resolve path' := by
  have alice : Enrollable Char.isAlphanum Cert.sampleCrypto "alice".toList := .named (by decide +kernel) (by decide +kernel)
  have bob : Enrollable Char.isAlphanum Cert.sampleCrypto "bob".toList := .named (by decide +kernel) (by decide +kernel)
  have files := client_files_iff Char.isAlphanum (by decide +kernel) Cert.sampleCrypto sampleOptions _ _ alice bob (by decide +kernel)
  exact files.1.mpr ⟨⟨by decide +kernel, by decide +kernel, by decide +kernel, by decide +kernel⟩,
    ⟨by decide +kernel, by decide +kernel, by decide +kernel, by decide +kernel⟩⟩

/-- The certificate of a client is imported, and the key of the server is written
over. -/
theorem import_leaves_directory :
    Enrollable Char.isAlphanum Cert.sampleCrypto "../tls-crypt.key".toList ∧
      ∃ path, Touches sampleOptions Cert.sampleCrypto "../tls-crypt.key".toList path ∧
        ¬ DirectlyIn sampleOptions.ccdDir path ∧
          resolve path = ["etc".toList, "openvpn".toList, "server".toList, "tls-crypt.key".toList] ∧
            ((run sampleOptions Cert.sampleCrypto { ca := some ⟨"ca1".toList, "key1".toList⟩ }
              (.importPeer "7:../tls-crypt.key".toList "key7".toList)).exec ⟨KeyTable.empty, fun _ => none, []⟩).2.touched =
                [path] := by
  have verified : Cert.verifyClientCert Cert.sampleCrypto ⟨"ca1".toList, "key1".toList⟩ "7:../tls-crypt.key".toList =
      some "../tls-crypt.key".toList := by decide +kernel
  refine ⟨.imported verified, _, touches_iff.mpr rfl, fun inside => ?_, by decide +kernel, by decide +kernel⟩
  have file := (directlyIn_iff (by decide +kernel)).mp inside
  exact absurd file.single (by decide +kernel)

end Protean.OpenVPN
