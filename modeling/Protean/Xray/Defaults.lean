import Mathlib.Algebra.Order.BigOperators.Group.List
import Mathlib.Algebra.Order.Group.Nat
import Protean.Xray.Templates

namespace Protean.Xray

section
variable {p : Params} {k : String} {d : Text} {clients : List Client}

/-- A key that is absent or empty takes the default it is asked with. -/
theorem get_of_unset (unset : p.get k [] = []) (default : Text) : p.get k default = default := by
  unfold Params.get at unset ⊢
  cases found : p.lookup k with
  | none => rfl
  | some v =>
    rw [found] at unset
    by_cases empty : v = []
    · simp [empty]
    · simp [empty] at unset

theorem lookup_of_unset (unset : p.get k [] = []) {v : Text} (found : p.lookup k = some v) : v = [] := by
  by_contra filled
  rw [Params.get, found] at unset
  simp [filled] at unset

theorem get_setField_self (filled : d ≠ []) (default : Text) : Params.get (setField p k d) k default = d := by
  rw [Params.get, lookup_setField]
  exact if_pos filled

theorem get_setField_of_ne {key : String} (other : key ≠ k) (default : Text) :
    Params.get (setField p k d) key default = p.get key default := by
  rw [Params.get, lookup_setField_of_ne other, Params.get]

/-- Asked with the declared default, a key reads the same whether it is set to it or not. -/
theorem get_setField_declared (filled : d ≠ []) (unset : p.get k [] = []) {key : String} {default : Text}
    (declared : key = k → default = d) : Params.get (setField p k d) key default = p.get key default := by
  by_cases same : key = k
  · rw [same, get_setField_self filled, get_of_unset unset, declared same]
  · exact get_setField_of_ne same default

def ParamSpec.missing (p : Params) (s : ParamSpec) : Bool := s.required && p.get s.key s.default == []

/-- The key that is reported. -/
def missingKey (p : Params) (specs : List ParamSpec) : Option String := (specs.find? (ParamSpec.missing p)).map (·.key)

theorem requireParams_eq (p : Params) (specs : List ParamSpec) :
    requireParams p specs = (missingKey p specs).elim (.ok ()) fun key => .error (.missingParameter key) := by
  unfold requireParams missingKey ParamSpec.missing
  cases specs.find? fun s => s.required && p.get s.key s.default == [] <;> rfl

/-- Only a parameter under the same key can stop missing. -/
theorem missing_setField (filled : d ≠ []) (s : ParamSpec) :
    ParamSpec.missing (setField p k d) s = (decide (s.key ≠ k) && ParamSpec.missing p s) := by
  unfold ParamSpec.missing
  by_cases same : s.key = k
  · simp [same, get_setField_self filled, filled]
  · simp [same, get_setField_of_ne same]

end

/-- Of two searches the second of which passes over the key, both find the same
unless the first one stops at it. -/
theorem find?_eq_iff {α : Type} {key : α → String} {k : String} {missing missing' : α → Bool}
    (agree : ∀ a, missing' a = (decide (key a ≠ k) && missing a)) (l : List α) :
    (l.find? missing').map key = (l.find? missing).map key ↔ (l.find? missing).map key ≠ some k := by
  induction l with
  | nil => simp
  | cons a l ih =>
    rw [List.find?_cons, List.find?_cons, agree]
    cases stops : missing a with
    | false => simpa using ih
    | true =>
      by_cases same : key a = k
      · simp only [same, Option.map_some, ne_eq, not_true_eq_false, decide_false, Bool.false_and]
        refine iff_of_false (fun found => ?_) (by simp)
        obtain ⟨b, found, other⟩ := Option.map_eq_some_iff.mp found
        have passed := List.find?_some found
        rw [agree, other] at passed
        simp at passed
      · simp [same]

/-- One more token with a value changes nothing exactly when another one stops the
template, or when none does and the filled templates are the same. -/
theorem outcome_eq_iff {E α : Type} {error : String → E} (names : Function.Injective error) {k : String}
    {missing missing' : String → Bool} (agree : ∀ t, missing' t = (decide (t ≠ k) && missing t)) (tokens : List String)
    (a b : α) :
    outcome error tokens missing' b = outcome error tokens missing a ↔
      match tokens.find? missing with
      | some token => token ≠ k
      | none => b = a := by
  have found : tokens.find? missing' = tokens.find? missing ↔ tokens.find? missing ≠ some k := by
    have agree' : ∀ t, missing' t = (decide (id t ≠ k) && missing t) := agree
    simpa using find?_eq_iff agree' tokens
  unfold outcome
  cases stops : tokens.find? missing with
  | none =>
    rw [stops] at found
    rw [found.mpr (by simp)]
    exact ⟨Except.ok.inj, congrArg Except.ok⟩
  | some token =>
    rw [stops] at found
    constructor
    · rintro same rfl
      refine found.mp ?_ rfl
      cases stops' : tokens.find? missing' with
      | none => rw [stops'] at same; cases same
      | some token' =>
        rw [stops'] at same
        rw [names (Except.error.inj same)]
    · intro other
      rw [found.mpr (by simpa using other)]

section
variable {f g : String → Option Json}

/-- Two values for a token. -/
def Valued (f g : String → Option Json) (tokens : List String) : Prop :=
  ∀ t ∈ tokens, (f t).isSome = true ∧ (g t).isSome = true

theorem Valued.of_append {l l' : List String} (valued : Valued f g (l ++ l')) : Valued f g l ∧ Valued f g l' :=
  List.forall_mem_append.mp valued

mutual

/-- A filled tree shows the value of each of its placeholders. -/
theorem filled_eq_iff (j : Json) (valued : Valued f g (placeholders j)) :
    filled f j = filled g j ↔ ∀ t ∈ placeholders j, f t = g t := by
  cases j with
  | obj fields =>
    rw [filled, filled, Json.obj.injEq]
    exact filledFields_eq_iff fields valued
  | arr items =>
    rw [filled, filled, Json.arr.injEq]
    exact filledItems_eq_iff items valued
  | str t =>
    rw [filled, filled]
    rw [placeholders] at valued ⊢
    cases whole : wholeToken t with
    | none => simp
    | some token =>
      rw [whole] at valued
      obtain ⟨left, right⟩ := valued token (by simp)
      obtain ⟨v, hv⟩ := Option.isSome_iff_exists.mp left
      obtain ⟨w, hw⟩ := Option.isSome_iff_exists.mp right
      simp [hv, hw]
  | null | bool b | num q => simp [filled, placeholders]

theorem filledItems_eq_iff (items : List Json) (valued : Valued f g (itemPlaceholders items)) :
    filledItems f items = filledItems g items ↔ ∀ t ∈ itemPlaceholders items, f t = g t := by
  cases items with
  | nil => simp [filledItems, itemPlaceholders]
  | cons item items =>
    rw [itemPlaceholders] at valued ⊢
    obtain ⟨first, rest⟩ := valued.of_append
    rw [filledItems, filledItems, List.cons.injEq, filled_eq_iff item first, filledItems_eq_iff items rest,
      List.forall_mem_append]

theorem filledFields_eq_iff (fields : List (String × Json)) (valued : Valued f g (fieldPlaceholders fields)) :
    filledFields f fields = filledFields g fields ↔ ∀ t ∈ fieldPlaceholders fields, f t = g t := by
  cases fields with
  | nil => simp [filledFields, fieldPlaceholders]
  | cons field fields =>
    obtain ⟨name, item⟩ := field
    rw [fieldPlaceholders] at valued ⊢
    obtain ⟨first, rest⟩ := valued.of_append
    rw [filledFields, filledFields, List.cons.injEq, Prod.mk.injEq, filled_eq_iff item first,
      filledFields_eq_iff fields rest, List.forall_mem_append]
    simp

end

end

/-- The error is about this key. -/
def BuildError.names (k : String) : BuildError → Bool
  | missingParameter key => key = k
  | unresolvedPlaceholder token => token = k
  | clientRequired | realityKeyMissing | unknownClientFormat _ => false

def LinkError.names (k : String) : LinkError → Bool
  | realityKeyMissing => false
  | unresolvedPlaceholder token => token = k

/-- The key stands in the inbound of the module, for a parameter. -/
def FileModule.reads (m : FileModule) (k : String) : Prop := k ≠ "clients" ∧ k ∈ placeholders (.obj m.inbound)

/-- The values of a client and its host that go before a parameter. -/
def ownToken (c : Client) (host : Text) (key : String) : Option Text :=
  if key = "password" ∧ c.password ≠ [] then some c.password
  else if key = "uuid" ∧ c.uuid ≠ [] then some c.uuid
  else if key = "name" then some c.name
  else if key = "host" then some host
  else none

def templateTokens (tmpl : Text) : List String := (pieces tmpl).filterMap Piece.key

/-- The key stands in the template of the links, for a parameter. -/
def LinkModule.linkReads (m : LinkModule) (c : Client) (host : Text) (k : String) : Prop :=
  ownToken c host k = none ∧ k ∈ templateTokens m.clientLinkTemplate

/-- A result that says nothing about the key: an error about something else, or a
value that was made without it. -/
def Silent {E α : Type} (names : E → Bool) (reads : Prop) : Except E α → Prop
  | .error e => names e = false
  | .ok _ => ¬ reads

section
variable {m : FileModule} {p : Params} {k : String} {d : Text} {clients : List Client}

theorem coerceParam_nil (type : Text) : coerceParam [] type = .str [] := by
  unfold coerceParam
  split
  · rfl
  · split <;> rfl

theorem coerceParam_ne (filled : d ≠ []) (type : Text) : coerceParam d type ≠ .str [] := by
  unfold coerceParam
  split
  · cases Text.atoi d <;> simp [Json.int, filled]
  · split
    · cases parseBool d <;> simp [filled]
    · simpa using filled

/-- What a placeholder of the inbound stands for. -/
def FileModule.resolve (m : FileModule) (p : Params) (clientArr : Json) (token : String) : Option Json :=
  if token = "clients" then some clientArr else (p.lookup token).map fun v => coerceParam v (m.paramType token)

theorem resolve_setField_of_ne {token : String} (other : token ≠ k) (arr : Json) :
    m.resolve (setField p k d) arr token = m.resolve p arr token := by
  rw [FileModule.resolve, FileModule.resolve, lookup_setField_of_ne other]

theorem resolve_setField_self (parameter : k ≠ "clients") (arr : Json) :
    m.resolve (setField p k d) arr k = some (coerceParam d (m.paramType k)) := by
  rw [FileModule.resolve, if_neg parameter, lookup_setField, Option.map_some]

theorem resolve_clients (p : Params) (arr : Json) : m.resolve p arr "clients" = some arr := if_pos rfl

/-- Without a value of its own the key is a placeholder that stays, or an empty text. -/
theorem resolve_unset (unset : p.get k [] = []) (parameter : k ≠ "clients") {arr v : Json}
    (found : m.resolve p arr k = some v) : v = .str [] := by
  rw [FileModule.resolve, if_neg parameter, Option.map_eq_some_iff] at found
  obtain ⟨t, there, rfl⟩ := found
  rw [lookup_of_unset unset there, coerceParam_nil]

theorem unresolved_setField (parameter : k ≠ "clients") (arr : Json) (token : String) :
    unresolved (m.resolve (setField p k d) arr) token = (decide (token ≠ k) && unresolved (m.resolve p arr) token) := by
  unfold unresolved
  by_cases same : token = k
  · simp [same, resolve_setField_self parameter]
  · simp [same, resolve_setField_of_ne same]

/-- The substitution takes no notice of the default exactly when it stops at another
token, or when it comes through and the key is not in the tree. -/
theorem substituteTree_setField_iff (filled : d ≠ []) (unset : p.get k [] = []) (arr : Json) :
    substituteTree (m.resolve (setField p k d) arr) (.obj m.inbound) = substituteTree (m.resolve p arr) (.obj m.inbound) ↔
      Silent (BuildError.names k) (m.reads k) (substituteTree (m.resolve p arr) (.obj m.inbound)) := by
  by_cases parameter : k = "clients"
  · -- the clients take the place of a parameter of that name
    have same : m.resolve (setField p k d) arr = m.resolve p arr := by
      funext token
      by_cases own : token = k
      · rw [own, parameter, resolve_clients, resolve_clients]
      · exact resolve_setField_of_ne own arr
    rw [same, substituteTree_eq, outcome]
    refine iff_of_true rfl ?_
    cases stops : (placeholders (.obj m.inbound)).find? (unresolved (m.resolve p arr)) with
    | none => exact fun reads => reads.1 parameter
    | some token =>
      have missing := List.find?_some stops
      rw [Silent, BuildError.names, decide_eq_false_iff_not]
      rintro rfl
      rw [unresolved, parameter, resolve_clients] at missing
      cases missing
  · rw [substituteTree_eq, substituteTree_eq,
      outcome_eq_iff (fun _ _ => BuildError.unresolvedPlaceholder.inj) (unresolved_setField parameter arr), outcome]
    cases stops : (placeholders (.obj m.inbound)).find? (unresolved (m.resolve p arr)) with
    | some token => rw [Silent, BuildError.names, decide_eq_false_iff_not]
    | none =>
      have there : ∀ t ∈ placeholders (.obj m.inbound), (m.resolve p arr t).isSome = true := by
        intro t listed
        simpa [unresolved, Option.isSome_iff_ne_none] using List.find?_eq_none.mp stops t listed
      have valued : Valued (m.resolve (setField p k d) arr) (m.resolve p arr) (placeholders (.obj m.inbound)) := by
        intro t listed
        refine ⟨?_, there t listed⟩
        by_cases same : t = k
        · rw [same, resolve_setField_self parameter, Option.isSome_some]
        · rw [resolve_setField_of_ne same]
          exact there t listed
      dsimp only
      rw [filled_eq_iff _ valued, Silent, FileModule.reads]
      constructor
      · rintro same ⟨-, listed⟩
        obtain ⟨v, found⟩ := Option.isSome_iff_exists.mp (there k listed)
        have both := same k listed
        rw [resolve_setField_self parameter, found, resolve_unset unset parameter found] at both
        exact coerceParam_ne filled _ (Option.some.inj both)
      · intro unread t listed
        have other : t ≠ k := fun same => unread ⟨parameter, same ▸ listed⟩
        exact resolve_setField_of_ne other arr

theorem missingKey_setField_iff (p : Params) (k : String) (filled : d ≠ []) (specs : List ParamSpec) :
    missingKey (setField p k d) specs = missingKey p specs ↔ missingKey p specs ≠ some k :=
  find?_eq_iff (missing_setField filled) specs

/-- The build once the parameters are complete. -/
def FileModule.fillInbound (m : FileModule) (p : Params) (clients : List Client) : Except BuildError Json := do
  needClients clients
  let clientArr ← m.buildClientArray clients
  substituteTree (m.resolve p clientArr) (.obj m.inbound)

theorem buildInbound_eq (m : FileModule) (p : Params) (clients : List Client) :
    m.buildInbound p clients =
      match missingKey p m.specs with
      | some key => .error (.missingParameter key)
      | none => m.fillInbound p clients := by
  rw [FileModule.buildInbound, requireParams_eq]
  cases missingKey p m.specs <;> rfl

/-- It fails for want of clients, for the format of the clients, or in the tree. -/
theorem fillInbound_cases (m : FileModule) (p : Params) (clients : List Client) :
    (∀ p', m.fillInbound p' clients = m.fillInbound p clients) ∧
        (m.fillInbound p clients = .error .clientRequired ∨
          m.fillInbound p clients = .error (.unknownClientFormat m.clientFormat)) ∨
      ∃ arr, ∀ p', m.fillInbound p' clients = substituteTree (m.resolve p' arr) (.obj m.inbound) := by
  unfold FileModule.fillInbound needClients FileModule.buildClientArray
  by_cases none' : clients = []
  · exact .inl ⟨fun _ => by simp only [if_pos none']; rfl, .inl (by rw [if_pos none']; rfl)⟩
  · simp only [if_neg none']
    split
    · exact .inr ⟨_, fun _ => rfl⟩
    · split
      · exact .inr ⟨_, fun _ => rfl⟩
      · split
        · exact .inr ⟨_, fun _ => rfl⟩
        · exact .inl ⟨fun _ => rfl, .inr rfl⟩

theorem fillInbound_setField_iff (filled : d ≠ []) (unset : p.get k [] = []) :
    m.fillInbound (setField p k d) clients = m.fillInbound p clients ↔
      Silent (BuildError.names k) (m.reads k) (m.fillInbound p clients) := by
  rcases fillInbound_cases m p clients with ⟨same, fails | fails⟩ | ⟨arr, same⟩
  · exact iff_of_true (same _) (by rw [fails]; rfl)
  · exact iff_of_true (same _) (by rw [fails]; rfl)
  · rw [same, same]
    exact substituteTree_setField_iff filled unset arr

theorem fillInbound_ne_missing (m : FileModule) (p : Params) (clients : List Client) (key : String) :
    m.fillInbound p clients ≠ .error (.missingParameter key) := by
  intro fails
  rcases fillInbound_cases m p clients with ⟨-, other | other⟩ | ⟨arr, same⟩
  · rw [other] at fails; cases fails
  · rw [other] at fails; cases fails
  · rw [same, substituteTree_eq, outcome] at fails
    split at fails <;> cases fails

/-- The inbound of a module takes no notice of the default exactly when what comes of
it without says nothing about the key. -/
theorem buildInbound_setField_iff (filled : d ≠ []) (unset : p.get k [] = []) :
    m.buildInbound (setField p k d) clients = m.buildInbound p clients ↔
      Silent (BuildError.names k) (m.reads k) (m.buildInbound p clients) := by
  have required := missingKey_setField_iff p k filled m.specs
  rw [buildInbound_eq, buildInbound_eq]
  cases reported : missingKey p m.specs with
  | none =>
    rw [required.mpr (by simp [reported]), reported]
    exact fillInbound_setField_iff filled unset
  | some key =>
    have silent : Silent (BuildError.names k) (m.reads k) (.error (.missingParameter key) : Except BuildError Json) ↔ key ≠ k :=
      decide_eq_false_iff_not
    dsimp only
    rw [silent]
    constructor
    · rintro same rfl
      -- with its default set, the key is not the one that is reported
      have other : missingKey (setField p key d) m.specs ≠ some key := fun still => required.mp (still.trans reported.symm) reported
      cases reported' : missingKey (setField p key d) m.specs with
      | none =>
        rw [reported'] at same
        exact fillInbound_ne_missing m _ clients key same
      | some key' =>
        rw [reported'] at same other
        exact other (by rw [BuildError.missingParameter.inj (Except.error.inj same)])
    · intro other
      rw [required.mpr (by simpa [reported] using other), reported]

end

section
variable {m : LinkModule} {p : Params} {k : String} {d : Text} {c : Client} {host : Text}

theorem lookup_setField_eq (fields : Params) (name key : String) (value : Text) :
    (setField fields name value).lookup key = if key = name then some value else fields.lookup key := by
  split
  · rename_i same
    rw [same, lookup_setField]
  · rename_i other
    exact lookup_setField_of_ne other

theorem lookup_linkTokens (p : Params) (c : Client) (host : Text) (key : String) :
    (linkTokens p c host).lookup key = (ownToken c host key).or (p.lookup key) := by
  unfold linkTokens ownToken
  by_cases uuid : c.uuid = [] <;> by_cases password : c.password = [] <;>
    simp only [uuid, password, ne_eq, not_true_eq_false, not_false_eq_true, if_true, if_false, and_true, and_false,
      lookup_setField_eq]
  all_goals repeat' split
  all_goals rfl

/-- What a token of the template stands for. -/
def linkValue (p : Params) (c : Client) (host : Text) (key : String) : Option Text := (linkTokens p c host).lookup key

theorem linkValue_of_own {key : String} (own : ownToken c host key ≠ none) (p p' : Params) :
    linkValue p c host key = linkValue p' c host key := by
  obtain ⟨v, own⟩ := Option.ne_none_iff_exists'.mp own
  rw [linkValue, linkValue, lookup_linkTokens, lookup_linkTokens, own, Option.some_or, Option.some_or]

theorem linkValue_of_ne {key : String} (other : key ≠ k) :
    linkValue (setField p k d) c host key = linkValue p c host key := by
  rw [linkValue, linkValue, lookup_linkTokens, lookup_linkTokens, lookup_setField_of_ne other]

theorem linkValue_self (parameter : ownToken c host k = none) : linkValue (setField p k d) c host k = some d := by
  rw [linkValue, lookup_linkTokens, parameter, Option.none_or, lookup_setField]

theorem substituteString_eq (tmpl : Text) (tokens : String → Option Text) :
    substituteString tmpl tokens =
      outcome .unresolvedPlaceholder (templateTokens tmpl).reverse (fun key => (tokens key).isNone)
        ((pieces tmpl).flatMap (Piece.fill tokens)) := rfl

/-- The text of a template grows with the value of a token in it. -/
theorem length_fill_lt {f g : String → Option Text} {ps : List Piece} (agree : ∀ t ≠ k, f t = g t) (empty : f k = some [])
    (full : g k = some d) (filled : d ≠ []) (listed : k ∈ ps.filterMap Piece.key) :
    (ps.flatMap (Piece.fill f)).length < (ps.flatMap (Piece.fill g)).length := by
  have grows : ∀ piece : Piece, (piece.fill f).length ≤ (piece.fill g).length := by
    intro piece
    cases piece with
    | char c => exact le_rfl
    | token key =>
      by_cases same : key = k
      · simp [Piece.fill, same, empty]
      · simp [Piece.fill, agree key same]
  have grown : (Piece.fill f (.token k)).length < (Piece.fill g (.token k)).length := by
    rw [Piece.fill, Piece.fill, empty, full]
    exact List.length_pos_iff.mpr filled
  have monotone : ∀ rest : List Piece, (rest.flatMap (Piece.fill f)).length ≤ (rest.flatMap (Piece.fill g)).length := by
    intro rest
    rw [List.length_flatMap, List.length_flatMap]
    exact List.sum_le_sum fun piece _ => grows piece
  obtain ⟨piece, placed, key⟩ := List.mem_filterMap.mp listed
  cases piece with
  | char c => cases key
  | token key' =>
    obtain rfl : key' = k := Option.some.inj key
    obtain ⟨before, after, rfl⟩ := List.append_of_mem placed
    simp only [List.flatMap_append, List.flatMap_cons, List.length_append]
    have first := monotone before
    have last := monotone after
    omega

/-- A link takes no notice of the default exactly when what comes of it without says
nothing about the key. -/
theorem clientLink_setField_iff (filled : d ≠ []) (unset : p.get k [] = []) :
    m.clientLink (setField p k d) c host = m.clientLink p c host ↔
      Silent (LinkError.names k) (m.linkReads c host k) (m.clientLink p c host) := by
  have made : ∀ p, m.clientLink p c host = substituteString m.clientLinkTemplate (linkValue p c host) := fun _ => rfl
  by_cases parameter : ownToken c host k = none
  · have agree : ∀ t, (linkValue (setField p k d) c host t).isNone =
        (decide (t ≠ k) && (linkValue p c host t).isNone) := by
      intro t
      by_cases same : t = k
      · simp [same, linkValue_self parameter]
      · simp [same, linkValue_of_ne same]
    rw [made, made, substituteString_eq, substituteString_eq,
      outcome_eq_iff (fun _ _ => LinkError.unresolvedPlaceholder.inj) agree, outcome]
    cases stops : (templateTokens m.clientLinkTemplate).reverse.find? fun key => (linkValue p c host key).isNone with
    | some token => rw [Silent, LinkError.names, decide_eq_false_iff_not]
    | none =>
      dsimp only
      rw [Silent, LinkModule.linkReads]
      constructor
      · rintro same ⟨-, listed⟩
        have there := List.find?_eq_none.mp stops k (List.mem_reverse.mpr listed)
        obtain ⟨v, found⟩ := Option.ne_none_iff_exists'.mp (by simpa using there)
        have stored : p.lookup k = some v := by
          rwa [linkValue, lookup_linkTokens, parameter, Option.none_or] at found
        rw [lookup_of_unset unset stored] at found
        have longer := length_fill_lt (fun t other => (linkValue_of_ne other).symm) found (linkValue_self parameter) filled listed
        rw [same] at longer
        exact longer.false
      · intro unread
        refine List.flatMap_congr fun piece placed => ?_
        cases piece with
        | char c => rfl
        | token key =>
          have other : key ≠ k := by
            rintro rfl
            exact unread ⟨parameter, List.mem_filterMap.mpr ⟨_, placed, rfl⟩⟩
          rw [Piece.fill, Piece.fill, linkValue_of_ne other]
  · -- the client's own value goes first either way
    have same : linkValue (setField p k d) c host = linkValue p c host := by
      funext key
      by_cases own : key = k
      · rw [own]
        exact linkValue_of_own parameter _ _
      · exact linkValue_of_ne own
    rw [made, made, same, substituteString_eq, outcome]
    refine iff_of_true rfl ?_
    cases stops : (templateTokens m.clientLinkTemplate).reverse.find? fun key => (linkValue p c host key).isNone with
    | none => exact fun reads => parameter reads.1
    | some token =>
      have missing := List.find?_some stops
      rw [Silent, LinkError.names, decide_eq_false_iff_not]
      rintro rfl
      obtain ⟨v, own⟩ := Option.ne_none_iff_exists'.mp parameter
      rw [linkValue, lookup_linkTokens, own] at missing
      cases missing

end

namespace Builtin

/-- What the builders ask for with a default of their own. -/
def builderDefaults (s : Builtin) : List (String × Text) :=
  [("port", s.defaultPort), ("cert_path", defaultCertPath), ("key_path", defaultKeyPath), ("ws_path", "/ws".toList),
    ("grpc_service", "grpc".toList), ("ss_method", ssMethod)]

/-- What they ask for without one. -/
def plainKeys : List String := ["domain", "sni", "dest", "reality_priv", "reality_pub", "reality_sid"]

/-- The default of a builder is the declared one. -/
theorem declared_defaults (s : Builtin) : ∀ spec ∈ s.params, spec.default ≠ [] →
    (∀ asked ∈ s.builderDefaults, asked.1 = spec.key → asked.2 = spec.default) ∧ spec.key ∉ plainKeys := by
  cases s <;> decide +kernel

/-- Two sets of parameters that look the same to a strategy. -/
structure Alike (s : Builtin) (p p' : Params) : Prop where
  asked : ∀ key default, (key, default) ∈ s.builderDefaults → p'.get key default = p.get key default
  plain : ∀ key ∈ plainKeys, ∀ default, p'.get key default = p.get key default

section
variable {s : Builtin} {spec : ParamSpec} {p p' : Params}

theorem alike_setField (declared : spec ∈ s.params) (filled : spec.default ≠ []) (unset : p.get spec.key [] = []) :
    s.Alike p (setField p spec.key spec.default) := by
  obtain ⟨own, plain⟩ := declared_defaults s spec declared filled
  refine ⟨fun key default asked => get_setField_declared filled unset (own _ asked), fun key listed default => ?_⟩
  have other : key ≠ spec.key := fun same => plain (same ▸ listed)
  exact get_setField_of_ne other default

theorem Alike.portOf (alike : s.Alike p p') : portOf p' s.defaultPort = portOf p s.defaultPort := by
  rw [Xray.portOf, Xray.portOf, alike.asked "port" _ (by simp [builderDefaults])]

theorem Alike.tlsSettings (alike : s.Alike p p') : tlsSettings p' = tlsSettings p := by
  rw [Xray.tlsSettings, Xray.tlsSettings, alike.plain "domain" (by decide), alike.asked "cert_path" _ (by simp [builderDefaults]),
    alike.asked "key_path" _ (by simp [builderDefaults])]

theorem Alike.inboundOf (alike : s.Alike p p') (clients : List Client) : s.inboundOf p' clients = s.inboundOf p clients := by
  have port := alike.portOf
  have tls := alike.tlsSettings
  have path := alike.asked "ws_path" "/ws".toList (by simp [builderDefaults])
  have service := alike.asked "grpc_service" "grpc".toList (by simp [builderDefaults])
  have method := alike.asked "ss_method" ssMethod (by simp [builderDefaults])
  have plain := alike.plain
  cases s <;> simp only [Builtin.inboundOf, inbound, port, tls, path, service, method]
  rw [plain "dest" (by decide), plain "sni" (by decide), plain "reality_priv" (by decide), plain "reality_sid" (by decide)]

theorem Alike.clientLink (alike : s.Alike p p') (c : Client) (host : Text) :
    s.clientLink p' c host = s.clientLink p c host := by
  have port := alike.portOf
  have domain := alike.plain "domain" (by decide) host
  have path := alike.asked "ws_path" "/ws".toList (by simp [builderDefaults])
  have service := alike.asked "grpc_service" "grpc".toList (by simp [builderDefaults])
  have method := alike.asked "ss_method" ssMethod (by simp [builderDefaults])
  have plain := alike.plain
  cases s <;> simp only [Builtin.clientLink, port, domain, path, service, method]
  rw [plain "reality_pub" (by decide), plain "sni" (by decide), plain "reality_sid" (by decide)]

theorem declared_once (s : Builtin) : ∀ spec ∈ s.params, ∀ spec' ∈ s.params, spec'.key = spec.key → spec' = spec := by
  cases s <;> decide +kernel

/-- A parameter with a default is never missing. -/
theorem requireParams_setField (declared : spec ∈ s.params) (filled : spec.default ≠ []) (unset : p.get spec.key [] = []) :
    requireParams (setField p spec.key spec.default) s.params = requireParams p s.params := by
  have there : missingKey p s.params ≠ some spec.key := by
    intro reported
    obtain ⟨spec', found, same⟩ := Option.map_eq_some_iff.mp reported
    have missing := List.find?_some found
    rw [declared_once s spec declared spec' (List.mem_of_find?_eq_some found) same, ParamSpec.missing,
      get_of_unset unset] at missing
    simp [filled] at missing
  rw [requireParams_eq, requireParams_eq, (missingKey_setField_iff p spec.key filled s.params).mpr there]

theorem buildInbound_setField (declared : spec ∈ s.params) (filled : spec.default ≠ []) (unset : p.get spec.key [] = [])
    (clients : List Client) : s.buildInbound (setField p spec.key spec.default) clients = s.buildInbound p clients := by
  have alike := alike_setField declared filled unset
  rw [buildInbound, buildInbound, requireParams_setField declared filled unset, alike.inboundOf,
    alike.plain "reality_priv" (by decide)]

end

end Builtin

/-- What a default must not be needed for. The strategies of the panel have their
defaults twice, in the declaration and in the builder; a module has them in the
declaration alone. -/
def LinkStrategy.NeedsNoDefault (s : LinkStrategy) (p : Params) (k : String) (clients : List Client) (c : Client)
    (host : Text) : Prop :=
  match s with
  | builtin _ => True
  | file m => Silent (BuildError.names k) (m.reads k) (m.buildInbound p clients) ∧
      Silent (LinkError.names k) (m.linkReads c host k) (m.clientLink p c host)

theorem map_template_inj {a b : Except LinkError Text} : a.map ShareLink.template = b.map .template ↔ a = b := by
  cases a <;> cases b <;> simp [Except.map]

/-- A key that is absent or empty has the effect of its declared default exactly for
the strategies of the panel, and for a module whose inbound and link fail over
something else or do not have the key. -/
theorem defaults_honoured_iff (s : LinkStrategy) (spec : ParamSpec) (declared : spec ∈ s.params) (filled : spec.default ≠ [])
    (p : Params) (unset : p.get spec.key [] = []) (clients : List Client) (c : Client) (host : Text) :
    s.buildInbound (setField p spec.key spec.default) clients = s.buildInbound p clients ∧
        s.clientLink (setField p spec.key spec.default) c host = s.clientLink p c host ↔
      s.NeedsNoDefault p spec.key clients c host := by
  cases s with
  | builtin s =>
    refine iff_of_true ⟨Builtin.buildInbound_setField declared filled unset clients, ?_⟩ trivial
    unfold LinkStrategy.clientLink
    dsimp only
    rw [(Builtin.alike_setField declared filled unset).clientLink]
  | file m =>
    exact and_congr (buildInbound_setField_iff filled unset) (map_template_inj.trans (clientLink_setField_iff filled unset))

/-- A module that passes validation, with a default for its port. -/
def portModule : LinkModule where
  name := "quic".toList
  label := "QUIC".toList
  cred := "uuid".toList
  clientFormat := "vless".toList
  params := [⟨"port", "8443".toList, true, "int".toList⟩, ⟨"note", "none".toList, false, []⟩]
  secretKinds := []
  inbound := [("port", .text "\x7b\x7bport\x7d\x7d"), ("settings", .obj [("clients", .text "\x7b\x7bclients\x7d\x7d")])]
  clientLinkTemplate := "vless://\x7b\x7buuid\x7d\x7d@\x7b\x7bhost\x7d\x7d:\x7b\x7bport\x7d\x7d".toList

def oneClient : Client := ⟨"alice".toList, "u1".toList, []⟩

theorem defaults_honoured_sample :
    let p : Params := [("port", "443".toList)]
    (LinkStrategy.file portModule).buildInbound (setField p "note" "none".toList) [oneClient] =
        (LinkStrategy.file portModule).buildInbound p [oneClient] ∧
      (LinkStrategy.file portModule).clientLink (setField p "note" "none".toList) oneClient "h".toList =
        (LinkStrategy.file portModule).clientLink p oneClient "h".toList := by
  refine (defaults_honoured_iff (.file portModule) ⟨"note", "none".toList, false⟩ (by decide +kernel) (by decide +kernel)
    [("port", "443".toList)] (by decide +kernel) [oneClient] oneClient "h".toList).mpr ⟨?_, ?_⟩
  · exact fun reads => absurd reads.2 (by decide +kernel)
  · exact fun reads => absurd reads.2 (by decide +kernel)

/-- Without its default the port is an unresolved placeholder, and left empty it is an
empty text; set to it, the module works. -/
theorem module_ignores_default :
    portModule.validate = true ∧ ⟨"port", "8443".toList, true⟩ ∈ portModule.specs ∧
      portModule.buildInbound [] [oneClient] = .error (.unresolvedPlaceholder "port") ∧
      portModule.clientLink [] oneClient "h".toList = .error (.unresolvedPlaceholder "port") ∧
      portModule.clientLink [("port", [])] oneClient "h".toList = .ok "vless://u1@h:".toList ∧
      portModule.clientLink (setField [] "port" "8443".toList) oneClient "h".toList = .ok "vless://u1@h:8443".toList ∧
      (portModule.buildInbound (setField [] "port" "8443".toList) [oneClient]).map (·.field "port") =
        .ok (some (.int 8443)) := by
  refine ⟨by decide +kernel, by decide +kernel, ?_, ?_, ?_, ?_, ?_⟩
  · rfl
  · rfl
  · rfl
  · rfl
  · rfl

end Protean.Xray
