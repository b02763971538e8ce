import Protean.Xray.Config
import Protean.Xray.FileModule

namespace Protean.Xray

/-- A module together with the template of its share links. -/
structure LinkModule extends FileModule where
  clientLinkTemplate : Text
  deriving Repr

/-- A template as it is scanned: single characters and the placeholders between them. -/
inductive Piece
  | char (c : Char)
  | token (key : String)
  deriving DecidableEq, Repr

/-- The token of a placeholder that a text starts with. -/
def tokenAt : Text → Option Text
  | '\x7b' :: '\x7b' :: rest =>
    let token := rest.takeWhile tokenChar
    if token ≠ [] ∧ (rest.drop token.length).take 2 = ['\x7d', '\x7d'] then some token else none
  | _ => none

/-- The matches from left to right, none inside another; the number counts the
characters of a match that are still ahead. -/
def piecesFrom : Nat → Text → List Piece
  | _, [] => []
  | n + 1, _ :: rest => piecesFrom n rest
  | 0, c :: rest =>
    match tokenAt (c :: rest) with
    | some token => .token (String.ofList token) :: piecesFrom (token.length + 3) rest
    | none => .char c :: piecesFrom 0 rest

def pieces (tmpl : Text) : List Piece := piecesFrom 0 tmpl

def Piece.key : Piece → Option String
  | char _ => none
  | token key => some key

/-- A token without a value stays as it is. -/
def Piece.fill (tokens : String → Option Text) : Piece → Text
  | char c => [c]
  | token key => (tokens key).getD ("\x7b\x7b".toList ++ key.toList ++ "\x7d\x7d".toList)

inductive LinkError
  | realityKeyMissing
  | unresolvedPlaceholder (token : String)
  deriving DecidableEq, Repr

/-- Of the tokens without a value the last one is named. -/
def substituteString (tmpl : Text) (tokens : String → Option Text) : Except LinkError Text :=
  match ((pieces tmpl).filterMap Piece.key).reverse.find? fun key => (tokens key).isNone with
  | some missing => .error (.unresolvedPlaceholder missing)
  | none => .ok ((pieces tmpl).flatMap (Piece.fill tokens))

/-- The client's own values go before the parameters of the same name. -/
def linkTokens (p : Params) (c : Client) (host : Text) : Params :=
  let tokens := setField (setField p "host" host) "name" c.name
  let tokens := if c.uuid ≠ [] then setField tokens "uuid" c.uuid else tokens
  if c.password ≠ [] then setField tokens "password" c.password else tokens

def LinkModule.clientLink (m : LinkModule) (p : Params) (c : Client) (host : Text) : Except LinkError Text :=
  substituteString m.clientLinkTemplate fun key => (linkTokens p c host).lookup key

/-- A strategy with its links, built in or from a module file. -/
inductive LinkStrategy
  | builtin (s : Builtin)
  | file (m : LinkModule)

namespace LinkStrategy

def params : LinkStrategy → List ParamSpec
  | builtin s => s.params
  | file m => m.specs

def buildInbound : LinkStrategy → Params → List Client → Except BuildError Json
  | builtin s => s.buildInbound
  | file m => m.buildInbound

def clientLink : LinkStrategy → Params → Client → Text → Except LinkError ShareLink
  | builtin s => fun p c host => (s.clientLink p c host).elim (.error .realityKeyMissing) .ok
  | file m => fun p c host => (m.clientLink p c host).map .template

end LinkStrategy

mutual

/-- The placeholders of a tree, in the order they are met. -/
def placeholders : Json → List String
  | .obj fields => fieldPlaceholders fields
  | .arr items => itemPlaceholders items
  | .str t => (wholeToken t).toList
  | .null | .bool _ | .num _ => []

def itemPlaceholders : List Json → List String
  | [] => []
  | item :: items => placeholders item ++ itemPlaceholders items

def fieldPlaceholders : List (String × Json) → List String
  | [] => []
  | (_, item) :: fields => placeholders item ++ fieldPlaceholders fields

end

mutual

/-- The tree with a value for every placeholder that has one. -/
def filled (resolve : String → Option Json) : Json → Json
  | .obj fields => .obj (filledFields resolve fields)
  | .arr items => .arr (filledItems resolve items)
  | .str t => ((wholeToken t).bind resolve).getD (.str t)
  | .null => .null
  | .bool b => .bool b
  | .num q => .num q

def filledItems (resolve : String → Option Json) : List Json → List Json
  | [] => []
  | item :: items => filled resolve item :: filledItems resolve items

def filledFields (resolve : String → Option Json) : List (String × Json) → List (String × Json)
  | [] => []
  | (name, item) :: fields => (name, filled resolve item) :: filledFields resolve fields

end

/-- What comes of a template: the first of the tokens without a value, or the
filled template. -/
def outcome {E α : Type} (error : String → E) (tokens : List String) (missing : String → Bool) (value : α) : Except E α :=
  match tokens.find? missing with
  | some token => .error (error token)
  | none => .ok value

section
variable {E α β γ : Type} {error : String → E} {missing missing' : String → Bool}

theorem outcome_map (f : α → β) {tokens : List String} {value : α} :
    (outcome error tokens missing value).map f = outcome error tokens missing (f value) := by
  unfold outcome
  cases tokens.find? missing <;> rfl

/-- Two parts, one after the other. -/
theorem outcome_append (f : α → β → γ) {tokens tokens' : List String} {a : α} {b : β} :
    (do let x ← outcome error tokens missing a; let y ← outcome error tokens' missing b; Except.ok (f x y)) =
      outcome error (tokens ++ tokens') missing (f a b) := by
  unfold outcome
  rw [List.find?_append]
  cases tokens.find? missing with
  | some token => rfl
  | none => cases tokens'.find? missing <;> rfl

end

section
variable (resolve : String → Option Json)

/-- No value for a token. -/
def unresolved (token : String) : Bool := (resolve token).isNone

mutual

theorem substituteTree_eq (j : Json) :
    substituteTree resolve j = outcome .unresolvedPlaceholder (placeholders j) (unresolved resolve) (filled resolve j) := by
  cases j with
  | obj fields => rw [substituteTree, substituteFields_eq, outcome_map, placeholders, filled]
  | arr items => rw [substituteTree, substituteItems_eq, outcome_map, placeholders, filled]
  | str t =>
    rw [substituteTree, placeholders, filled]
    cases wholeToken t with
    | none => rfl
    | some token => cases found : resolve token <;> simp [outcome, unresolved, found]
  | null => rfl
  | bool b => rfl
  | num q => rfl

theorem substituteItems_eq (items : List Json) :
    substituteItems resolve items =
      outcome .unresolvedPlaceholder (itemPlaceholders items) (unresolved resolve) (filledItems resolve items) := by
  cases items with
  | nil => rfl
  | cons item items =>
    rw [substituteItems, substituteTree_eq item, substituteItems_eq items, itemPlaceholders, filledItems]
    exact outcome_append _

theorem substituteFields_eq (fields : List (String × Json)) :
    substituteFields resolve fields =
      outcome .unresolvedPlaceholder (fieldPlaceholders fields) (unresolved resolve) (filledFields resolve fields) := by
  cases fields with
  | nil => rfl
  | cons field fields =>
    obtain ⟨name, item⟩ := field
    rw [substituteFields, substituteTree_eq item, substituteFields_eq fields, fieldPlaceholders, filledFields]
    exact outcome_append fun value values => (name, value) :: values

end

end

end Protean.Xray
