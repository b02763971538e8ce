import Protean.WgFamily.RoundTrip

namespace Protean.WgFamily

/-- Simple case folding, of the letters that fold to ASCII: besides the
capitals these are the Kelvin sign and the long s. -/
def foldChar (c : Char) : Char := if c = 'K' then 'k' else if c = 'ſ' then 's' else c.toLower

/-- `strings.EqualFold` against a key in ASCII. -/
def equalFold (s t : Text) : Bool := s.map foldChar = t.map foldChar

def getOpt (opts : List KV) (key : Text) : Option Text := (opts.find? fun kv => equalFold kv.key key).map KV.value

/-- The first option with the key gets the value, or a new one at the end. -/
def setOpt : List KV → Text → Text → List KV
  | [], key, value => [⟨key, value⟩]
  | kv :: opts, key, value => if equalFold kv.key key then ⟨kv.key, value⟩ :: opts else kv :: setOpt opts key value

def unsetOpt (opts : List KV) (key : Text) : List KV := opts.filter fun kv => !equalFold kv.key key

def ConfFile.interfaceGet (cf : ConfFile) (key : Text) : Option Text := getOpt cf.interfaceOpts key

def ConfFile.interfaceSet (cf : ConfFile) (key value : Text) : ConfFile :=
  { cf with interfaceOpts := setOpt cf.interfaceOpts key value }

def ConfFile.interfaceUnset (cf : ConfFile) (key : Text) : ConfFile :=
  { cf with interfaceOpts := unsetOpt cf.interfaceOpts key }

/-- What makes a block the block of a peer. -/
def ConfPeer.hasKey (publicKey : Text) (p : ConfPeer) : Bool := getOpt p.opts "PublicKey".toList = some publicKey

def ConfFile.findPeer (cf : ConfFile) (publicKey : Text) : Option ConfPeer := cf.peers.find? (·.hasKey publicKey)

def ConfFile.addPeer (cf : ConfFile) (p : ConfPeer) : ConfFile := { cf with peers := cf.peers ++ [p] }

/-- Only the first block of the peer goes. -/
def ConfFile.removePeer (cf : ConfFile) (publicKey : Text) : ConfFile :=
  { cf with peers := cf.peers.eraseP (·.hasKey publicKey) }

def replaceFirst {α : Type} (p : α → Bool) (new : α) : List α → List α
  | [] => []
  | x :: xs => if p x then new :: xs else x :: replaceFirst p new xs

def ConfFile.replacePeer (cf : ConfFile) (publicKey : Text) (p : ConfPeer) : ConfFile :=
  { cf with peers := replaceFirst (·.hasKey publicKey) p cf.peers }

theorem replaceFirst_append {α : Type} {p : α → Bool} {pre : List α} {x : α} (others : ∀ y ∈ pre, p y = false)
    (own : p x = true) (new : α) (post : List α) : replaceFirst p new (pre ++ x :: post) = pre ++ new :: post := by
  induction pre with
  | nil => exact if_pos own
  | cons y pre ih =>
    rw [List.forall_mem_cons] at others
    rw [List.cons_append, replaceFirst, if_neg (by simp [others.1]), ih others.2, List.cons_append]

/-- The block of a peer, where it stands. -/
theorem findPeer_split {conf : ConfFile} {key : Text} {old : ConfPeer} (found : conf.findPeer key = some old) :
    ∃ pre post, conf.peers = pre ++ old :: post ∧ (∀ p ∈ pre, p.hasKey key = false) ∧ old.hasKey key = true := by
  obtain ⟨own, pre, post, peers, others⟩ := List.find?_eq_some_iff_append.mp found
  exact ⟨pre, post, peers, fun p member => by simpa using others p member, own⟩

section
variable {key value other : Text} {opts : List KV}

theorem equalFold_iff {s t : Text} : equalFold s t = true ↔ s.map foldChar = t.map foldChar := decide_eq_true_iff

theorem equalFold_refl (t : Text) : equalFold t t = true := equalFold_iff.mpr rfl

theorem equalFold_trans {s t u : Text} (first : equalFold s t = true) (second : equalFold t u = true) :
    equalFold s u = true := equalFold_iff.mpr ((equalFold_iff.mp first).trans (equalFold_iff.mp second))

theorem equalFold_symm {s t : Text} (same : equalFold s t = true) : equalFold t s = true :=
  equalFold_iff.mpr (equalFold_iff.mp same).symm

/-- An option that is set has the key it had, or the key it is set by. -/
theorem mem_setOpt {kv : KV} (member : kv ∈ setOpt opts key value) :
    kv ∈ opts ∨ kv.value = value ∧ (kv.key = key ∨ ∃ old ∈ opts, kv.key = old.key) := by
  induction opts with
  | nil =>
    obtain rfl := List.mem_singleton.mp member
    exact .inr ⟨rfl, .inl rfl⟩
  | cons first opts ih =>
    rw [setOpt] at member
    split at member
    · rcases List.mem_cons.mp member with rfl | old
      · exact .inr ⟨rfl, .inr ⟨first, List.mem_cons_self, rfl⟩⟩
      · exact .inl (List.mem_cons_of_mem _ old)
    · rcases List.mem_cons.mp member with rfl | later
      · exact .inl List.mem_cons_self
      · rcases ih later with old | ⟨set, new | ⟨old, listed, same⟩⟩
        · exact .inl (List.mem_cons_of_mem _ old)
        · exact .inr ⟨set, .inl new⟩
        · exact .inr ⟨set, .inr ⟨old, List.mem_cons_of_mem _ listed, same⟩⟩

/-- Options that a predicate on keys leaves out are the only ones that setting changes. -/
theorem filter_setOpt {p : KV → Bool} (out : ∀ kv, equalFold kv.key key = true → p kv = false) :
    (setOpt opts key value).filter p = opts.filter p := by
  induction opts with
  | nil => simp [setOpt, out ⟨key, value⟩ (equalFold_refl key)]
  | cons kv opts ih =>
    rw [setOpt]
    split
    · rename_i same
      rw [List.filter_cons_of_neg (by simp [out ⟨kv.key, value⟩ same]), List.filter_cons_of_neg (by simp [out kv same])]
    · rw [List.filter_cons, List.filter_cons, ih]

/-- Setting one option and removing another can be done in either order. -/
theorem unsetOpt_setOpt (different : equalFold key other = false) :
    unsetOpt (setOpt opts key value) other = setOpt (unsetOpt opts other) key value := by
  induction opts with
  | nil => simp [setOpt, unsetOpt, different]
  | cons kv opts ih =>
    unfold unsetOpt at ih ⊢
    rw [setOpt]
    by_cases own : equalFold kv.key key = true
    · have kept : equalFold kv.key other = false := by
        rw [Bool.eq_false_iff] at different ⊢
        exact fun same => different (equalFold_trans (equalFold_symm own) same)
      simp [own, kept, setOpt]
    · by_cases gone : equalFold kv.key other = true
      · simp [own, gone, ih]
      · simp [own, gone, setOpt, ih]

/-- The settings of a list, one after the other. -/
def setAll (opts settings : List KV) : List KV := settings.foldl (fun opts s => setOpt opts s.key s.value) opts

def KV.sameKey (kv s : KV) : Bool := equalFold kv.key s.key

/-- No two settings are for the same option. -/
def Distinct (settings : List KV) : Prop := settings.Pairwise fun s t => s.sameKey t = false

/-- The settings in the order in which they stand in the file: each one where
the first option with its key is, and at the end those that are new. -/
def standing : List KV → List KV → List KV
  | [], settings => settings
  | kv :: opts, settings => (settings.find? kv.sameKey).toList ++ standing opts (settings.eraseP kv.sameKey)

theorem setAll_append (opts settings more : List KV) :
    setAll opts (settings ++ more) = setAll (setAll opts settings) more := List.foldl_append

theorem setAll_cons (kv : KV) (opts : List KV) {settings : List KV} (distinct : Distinct settings) :
    setAll (kv :: opts) settings =
      ⟨kv.key, ((settings.find? kv.sameKey).map KV.value).getD kv.value⟩ :: setAll opts (settings.eraseP kv.sameKey) := by
  induction settings generalizing kv opts with
  | nil => rfl
  | cons s settings ih =>
    obtain ⟨apart, distinct⟩ := List.pairwise_cons.mp distinct
    have start : setAll (kv :: opts) (s :: settings) = setAll (setOpt (kv :: opts) s.key s.value) settings := rfl
    rw [start, setOpt, show equalFold kv.key s.key = kv.sameKey s from rfl]
    by_cases own : kv.sameKey s = true
    · -- the other settings are for other options
      have none : ∀ t ∈ settings, ¬ kv.sameKey t = true := by
        intro t member same
        exact Bool.eq_false_iff.mp (apart t member) (equalFold_trans (equalFold_symm own) same)
      have same : (⟨kv.key, s.value⟩ : KV).sameKey = kv.sameKey := rfl
      rw [if_pos own, ih _ _ distinct, same, List.find?_cons_of_pos own, List.eraseP_cons_of_pos own,
        List.find?_eq_none.mpr none, List.eraseP_of_forall_not none]
      rfl
    · rw [if_neg own, ih _ _ distinct, List.find?_cons_of_neg own, List.eraseP_cons_of_neg own]
      rfl

theorem setOpt_fresh (fresh : ∀ kv ∈ opts, equalFold kv.key key = false) :
    setOpt opts key value = opts ++ [⟨key, value⟩] := by
  induction opts with
  | nil => rfl
  | cons kv opts ih =>
    rw [List.forall_mem_cons] at fresh
    rw [setOpt, if_neg (by simp [fresh.1]), ih fresh.2, List.cons_append]

theorem setAll_fresh {settings : List KV} (distinct : Distinct settings)
    (fresh : ∀ kv ∈ opts, ∀ s ∈ settings, kv.sameKey s = false) : setAll opts settings = opts ++ settings := by
  induction settings generalizing opts with
  | nil => simp [setAll]
  | cons s settings ih =>
    obtain ⟨apart, distinct⟩ := List.pairwise_cons.mp distinct
    have start : setAll opts (s :: settings) = setAll (setOpt opts s.key s.value) settings := rfl
    have later : ∀ kv ∈ opts ++ [s], ∀ t ∈ settings, kv.sameKey t = false := by
      intro kv member t listed
      rcases List.mem_append.mp member with old | new
      · exact fresh kv old t (List.mem_cons_of_mem _ listed)
      · rw [List.mem_singleton.mp new]
        exact apart t listed
    rw [start, setOpt_fresh fun kv member => fresh kv member s List.mem_cons_self, ih distinct later, List.append_assoc,
      List.singleton_append]

/-- Of what is in the file after the settings, only the settings themselves
count for a function that gives nothing for the options before. -/
theorem flatMap_setAll {β : Type} {f : KV → List β} (byValue : ∀ kv kv' : KV, kv.value = kv'.value → f kv = f kv')
    (plain : ∀ kv ∈ opts, f kv = []) {settings : List KV} (distinct : Distinct settings) :
    (setAll opts settings).flatMap f = (standing opts settings).flatMap f := by
  induction opts generalizing settings with
  | nil => rw [setAll_fresh distinct (by simp), List.nil_append, standing]
  | cons kv opts ih =>
    rw [List.forall_mem_cons] at plain
    have rest := ih plain.2 (distinct.sublist (List.eraseP_sublist (p := kv.sameKey)))
    rw [setAll_cons kv opts distinct, standing, List.flatMap_cons, List.flatMap_append, rest]
    congr 1
    cases settings.find? kv.sameKey with
    | none => simpa using plain.1
    | some s => simpa using byValue ⟨kv.key, s.value⟩ s rfl

theorem distinct_of_keys {keys : List Text} (known : (opts.map KV.key).Sublist keys)
    (apart : keys.Pairwise fun a b => equalFold a b = false) : Distinct opts :=
  List.pairwise_map.mp (apart.sublist known)

theorem getOpt_eq_none (absent : ∀ kv ∈ opts, equalFold kv.key key = false) : getOpt opts key = none := by
  rw [getOpt, List.find?_eq_none.mpr fun kv member => by simp [absent kv member]]
  rfl

theorem getOpt_eq_none_of_keys {keys : List Text} (known : (opts.map KV.key).Sublist keys)
    (apart : ∀ k ∈ keys, equalFold k key = false) : getOpt opts key = none :=
  getOpt_eq_none fun _ member => apart _ (known.subset (List.mem_map_of_mem member))

/-- An option that is there under a condition. -/
theorem map_key_ite (c : Prop) [Decidable c] (kv : KV) : ((if c then [kv] else []).map KV.key).Sublist [kv.key] := by
  split <;> simp

/-- With one option for each key, an option is found by its key. -/
theorem getOpt_of_mem {kv : KV} (distinct : Distinct opts) (member : kv ∈ opts) : getOpt opts kv.key = some kv.value := by
  induction opts with
  | nil => cases member
  | cons first opts ih =>
    obtain ⟨apart, distinct⟩ := List.pairwise_cons.mp distinct
    rcases List.mem_cons.mp member with rfl | later
    · rw [getOpt, List.find?_cons_of_pos (p := fun kv' : KV => equalFold kv'.key kv.key) (equalFold_refl _)]
      rfl
    · have other : ¬ equalFold first.key kv.key = true := Bool.eq_false_iff.mp (apart kv later)
      rw [getOpt, List.find?_cons_of_neg (p := fun kv' : KV => equalFold kv'.key kv.key) other]
      exact ih distinct later

end

end Protean.WgFamily
