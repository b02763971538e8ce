import Protean.WgFamily.Options

namespace Protean.WgFamily

section
variable (fold : Char → Char)

/-- `strings.EqualFold` of any two keys, `fold` being the case folding of a character. -/
def equalFoldBy (s t : Text) : Bool := s.map fold = t.map fold

def getOptBy (opts : List KV) (key : Text) : Option Text := (opts.find? fun kv => equalFoldBy fold kv.key key).map KV.value

/-- The value is written in place, or a new option is appended. -/
def setOptBy (opts : List KV) (key value : Text) : List KV :=
  match opts.findIdx? fun kv => equalFoldBy fold kv.key key with
  | some i => opts.modify i fun kv => { kv with value := value }
  | none => opts ++ [⟨key, value⟩]

/-- The options that stay are appended to a new list one by one. -/
def unsetOptBy (opts : List KV) (key : Text) : List KV :=
  opts.foldl (fun kept kv => if equalFoldBy fold kv.key key then kept else kept ++ [kv]) []

def ConfPeer.hasKeyBy (publicKey : Text) (p : ConfPeer) : Bool := getOptBy fold p.opts "PublicKey".toList = some publicKey

def ConfFile.findPeerBy (cf : ConfFile) (publicKey : Text) : Option ConfPeer := cf.peers.find? (·.hasKeyBy fold publicKey)

/-- The blocks after the first one of the peer move down in place. -/
def ConfFile.removePeerBy (cf : ConfFile) (publicKey : Text) : ConfFile × Bool :=
  match cf.peers.findIdx? (·.hasKeyBy fold publicKey) with
  | some i => ({ cf with peers := cf.peers.take i ++ cf.peers.drop (i + 1) }, true)
  | none => (cf, false)

def ConfFile.replacePeerBy (cf : ConfFile) (publicKey : Text) (p : ConfPeer) : ConfFile × Bool :=
  match cf.peers.findIdx? (·.hasKeyBy fold publicKey) with
  | some i => ({ cf with peers := cf.peers.set i p }, true)
  | none => (cf, false)

end

section
variable {fold : Char → Char} {cf : ConfFile} {k k' v pk : Text} {opts : List KV} {old p : ConfPeer}

/-- With the folding of the ASCII keys these are the functions the rest of the model uses. -/
theorem findPeerBy_foldChar : cf.findPeerBy foldChar pk = cf.findPeer pk := rfl

theorem equalFoldBy_congr (same : equalFoldBy fold k k' = true) (t : Text) : equalFoldBy fold t k = equalFoldBy fold t k' := by
  rw [equalFoldBy, equalFoldBy, of_decide_eq_true same]

/-- Where a search stops, the list is split. -/
theorem findIdx?_split {α : Type} (q : α → Bool) (xs : List α) :
    xs.findIdx? q = none ∧ xs.find? q = none ∨
      ∃ pre x post, xs = pre ++ x :: post ∧ (∀ y ∈ pre, q y = false) ∧ q x = true ∧
        xs.findIdx? q = some pre.length ∧ xs.find? q = some x := by
  cases found : xs.find? q with
  | none => exact .inl ⟨List.findIdx?_eq_none_iff.mpr (by simpa using found), rfl⟩
  | some x =>
    obtain ⟨own, pre, post, rfl, others⟩ := List.find?_eq_some_iff_append.mp found
    have before : ∀ y ∈ pre, q y = false := fun y member => by simpa using others y member
    have index : pre.findIdx? q = none := List.findIdx?_eq_none_iff.mpr before
    exact .inr ⟨pre, x, post, rfl, before, own, by simp [List.findIdx?_append, index, List.findIdx?_cons, own], rfl⟩

/-- Setting puts the value in the place of the first option with the key, or at the end. -/
theorem setOptBy_split (opts : List KV) (k v : Text) : ∃ pre old post key, opts = pre ++ (old ++ post) ∧
    setOptBy fold opts k v = pre ++ ⟨key, v⟩ :: post ∧ (∀ kv ∈ pre, equalFoldBy fold kv.key k = false) ∧
    equalFoldBy fold key k = true ∧ ∀ kv ∈ old, equalFoldBy fold kv.key k = true := by
  rcases findIdx?_split (fun kv : KV => equalFoldBy fold kv.key k) opts with
    ⟨index, -⟩ | ⟨pre, kv, post, rfl, others, own, index, -⟩
  · refine ⟨opts, [], [], k, by simp, by rw [setOptBy, index], List.findIdx?_eq_none_iff.mp index, ?_, nofun⟩
    exact decide_eq_true rfl
  · refine ⟨pre, [kv], post, kv.key, rfl, ?_, others, own, by simpa using own⟩
    rw [setOptBy, index]
    simp [List.modify_eq_take_drop]

theorem getOptBy_setOptBy :
    getOptBy fold (setOptBy fold opts k v) k' = if equalFoldBy fold k k' then some v else getOptBy fold opts k' := by
  obtain ⟨pre, old, post, key, rfl, set, others, own, replaced⟩ := @setOptBy_split fold opts k v
  have spelled : ∀ key, equalFoldBy fold key k = true → equalFoldBy fold key k' = equalFoldBy fold k k' := by
    intro key same
    rw [equalFoldBy, equalFoldBy, of_decide_eq_true same]
  rw [set, getOptBy, getOptBy, List.find?_append, List.find?_append, List.find?_append, List.find?_cons, spelled key own]
  cases same : equalFoldBy fold k k' with
  | true =>
    have before : pre.find? (fun kv => equalFoldBy fold kv.key k') = none := by
      simpa [← equalFoldBy_congr same] using others
    simp [before]
  | false =>
    have none : old.find? (fun kv => equalFoldBy fold kv.key k') = none := by
      simpa using fun kv member => (spelled kv.key (replaced kv member)).trans same
    simp [none]

theorem unsetOptBy_eq_filter : unsetOptBy fold opts k = opts.filter fun kv => !equalFoldBy fold kv.key k := by
  have kept : ∀ first : List KV, opts.foldl (fun kept kv => if equalFoldBy fold kv.key k then kept else kept ++ [kv]) first =
      first ++ opts.filter fun kv => !equalFoldBy fold kv.key k := by
    induction opts with
    | nil => simp
    | cons kv opts ih =>
      intro first
      rw [List.foldl_cons, ih]
      by_cases own : equalFoldBy fold kv.key k = true <;> simp [own]
  exact kept []

/-- What removing and replacing a peer do, by what is found. -/
theorem peer_edits (cf : ConfFile) (pk : Text) :
    cf.findPeerBy fold pk = none ∧ cf.removePeerBy fold pk = (cf, false) ∧ (∀ p, cf.replacePeerBy fold pk p = (cf, false)) ∨
      ∃ pre old post, cf.findPeerBy fold pk = some old ∧ cf.peers = pre ++ old :: post ∧
        (∀ q ∈ pre, q.hasKeyBy fold pk = false) ∧ old.hasKeyBy fold pk = true ∧
        cf.removePeerBy fold pk = ({ cf with peers := pre ++ post }, true) ∧
        ∀ p, cf.replacePeerBy fold pk p = ({ cf with peers := pre ++ p :: post }, true) := by
  rcases findIdx?_split (·.hasKeyBy fold pk) cf.peers with ⟨index, none⟩ | ⟨pre, old, post, peers, others, own, index, found⟩
  · exact .inl ⟨none, by rw [ConfFile.removePeerBy, index], fun p => by rw [ConfFile.replacePeerBy, index]⟩
  · refine .inr ⟨pre, old, post, found, peers, others, own, ?_, fun p => ?_⟩
    · rw [ConfFile.removePeerBy, index]
      simp [peers]
    · rw [ConfFile.replacePeerBy, index]
      simp [peers]

theorem removePeerBy_addPeer (absent : cf.findPeerBy fold pk = none) (own : p.hasKeyBy fold pk = true) :
    (cf.addPeer p).removePeerBy fold pk = (cf, true) := by
  have index : cf.peers.findIdx? (·.hasKeyBy fold pk) = none :=
    List.findIdx?_eq_none_iff.mpr (by simpa [ConfFile.findPeerBy] using absent)
  have last : (cf.addPeer p).peers.findIdx? (·.hasKeyBy fold pk) = some cf.peers.length := by
    simp [ConfFile.addPeer, List.findIdx?_append, index, List.findIdx?_cons, own]
  rw [ConfFile.removePeerBy, last]
  simp [ConfFile.addPeer]

end

/-- Setting, unsetting, adding, removing and replacing, for every case folding. -/
theorem conf_edits_exact (fold : Char → Char) (cf : ConfFile) (k v pk : Text) :
    (∀ k', getOptBy fold (setOptBy fold cf.interfaceOpts k v) k' =
      if equalFoldBy fold k k' then some v else getOptBy fold cf.interfaceOpts k') ∧
    (∀ k', equalFoldBy fold k k' = true → getOptBy fold (unsetOptBy fold cf.interfaceOpts k) k' = none) ∧
    (unsetOptBy fold cf.interfaceOpts k = cf.interfaceOpts.filter fun kv => !equalFoldBy fold kv.key k) ∧
    (∀ p : ConfPeer, cf.findPeerBy fold pk = none → p.hasKeyBy fold pk = true →
      (cf.addPeer p).removePeerBy fold pk = (cf, true)) ∧
    (∀ old, cf.findPeerBy fold pk = some old → ∃ pre post, cf.peers = pre ++ old :: post ∧
      (∀ q ∈ pre, q.hasKeyBy fold pk = false) ∧ old.hasKeyBy fold pk = true ∧
      (cf.removePeerBy fold pk).1 = { cf with peers := pre ++ post } ∧
      ∀ p, (cf.replacePeerBy fold pk p).1 = { cf with peers := pre ++ p :: post }) ∧
    ((cf.findPeerBy fold pk).isSome = (cf.removePeerBy fold pk).2) ∧
    ∀ p, (cf.findPeerBy fold pk).isSome = (cf.replacePeerBy fold pk p).2 := by
  refine ⟨fun _ => getOptBy_setOptBy, fun k' same => ?_, unsetOptBy_eq_filter, fun _ => removePeerBy_addPeer, ?_⟩
  · rw [unsetOptBy_eq_filter, getOptBy, Option.map_eq_none_iff, List.find?_eq_none]
    intro kv member
    simpa [← equalFoldBy_congr same] using (List.mem_filter.mp member).2
  · rcases peer_edits cf pk with ⟨none, removed, replaced⟩ | ⟨pre, old, post, found, peers, others, own, removed, replaced⟩
    · rw [none, removed]
      exact ⟨nofun, rfl, fun p => by rw [replaced]; rfl⟩
    · rw [found, removed]
      refine ⟨fun old' same => ?_, rfl, fun p => by rw [replaced]; rfl⟩
      exact Option.some.inj same ▸ ⟨pre, post, peers, others, own, rfl, fun p => by rw [replaced]⟩

end Protean.WgFamily
