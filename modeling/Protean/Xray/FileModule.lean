import Protean.Xray.Strategies

namespace Protean.Xray

structure FileParamSpec where
  key : String
  default : Text
  required : Bool
  type : Text
  deriving DecidableEq, Repr

/-- A strategy module an admin wrote, as decoded from its file. -/
structure FileModule where
  name : Text
  label : Text
  cred : Text
  clientFormat : Text
  params : List FileParamSpec
  secretKinds : List Text
  inbound : List (String × Json)
  deriving Repr

namespace FileModule

def validate (m : FileModule) : Bool :=
  m.name ≠ [] && m.label ≠ [] && m.cred ∈ ["uuid".toList, "password".toList] &&
    m.clientFormat ∈ ["vless".toList, "vmess".toList, "trojan".toList] && !m.inbound.isEmpty &&
    m.secretKinds.all (· ∈ ["reality_keypair".toList, "short_id".toList, "uuid".toList, "password".toList])

/-- The modules of a directory, in its order: a file that does not validate,
takes the name of a built-in strategy or repeats a name is skipped. -/
def load (files : List FileModule) : List FileModule :=
  files.foldl (fun loaded m =>
    if m.validate && Builtin.all.all (·.name ≠ m.name) && loaded.all (·.name ≠ m.name) then loaded ++ [m]
    else loaded) []

def specs (m : FileModule) : List ParamSpec := m.params.map fun ps => ⟨ps.key, ps.default, ps.required⟩

def paramType (m : FileModule) (key : String) : Text :=
  (m.params.find? (·.key = key)).elim [] FileParamSpec.type

def buildClientArray (m : FileModule) (clients : List Client) : Except BuildError Json :=
  if m.clientFormat = "vless".toList then .ok (.arr (vlessClients clients []))
  else if m.clientFormat = "vmess".toList then .ok (.arr (vmessClients clients))
  else if m.clientFormat = "trojan".toList then .ok (.arr (trojanClients clients))
  else .error (.unknownClientFormat m.clientFormat)

end FileModule

def tokenChar (c : Char) : Bool := c.isAlphanum || c = '_'

/-- The token of a text that is one placeholder and nothing else. -/
def wholeToken : Text → Option String
  | '\x7b' :: '\x7b' :: rest =>
    match rest.reverse with
    | '\x7d' :: '\x7d' :: token =>
      if token ≠ [] ∧ token.all tokenChar then some (String.ofList token.reverse) else none
    | _ => none
  | _ => none

mutual

/-- Only whole leaves are replaced. Of several tokens that do not resolve, the
error names one. -/
def substituteTree (resolve : String → Option Json) : Json → Except BuildError Json
  | .obj fields => (substituteFields resolve fields).map .obj
  | .arr items => (substituteItems resolve items).map .arr
  | .str t =>
    match wholeToken t with
    | none => .ok (.str t)
    | some token =>
      match resolve token with
      | some value => .ok value
      | none => .error (.unresolvedPlaceholder token)
  | .null => .ok .null
  | .bool b => .ok (.bool b)
  | .num q => .ok (.num q)

def substituteItems (resolve : String → Option Json) : List Json → Except BuildError (List Json)
  | [] => .ok []
  | item :: items => do
    let value ← substituteTree resolve item
    let values ← substituteItems resolve items
    .ok (value :: values)

def substituteFields (resolve : String → Option Json) :
    List (String × Json) → Except BuildError (List (String × Json))
  | [] => .ok []
  | (name, item) :: fields => do
    let value ← substituteTree resolve item
    let values ← substituteFields resolve fields
    .ok ((name, value) :: values)

end

/-- `strconv.ParseBool`. -/
def parseBool (v : Text) : Option Bool :=
  if v ∈ ["1".toList, "t".toList, "T".toList, "true".toList, "TRUE".toList, "True".toList] then some true
  else if v ∈ ["0".toList, "f".toList, "F".toList, "false".toList, "FALSE".toList, "False".toList] then some false
  else none

/-- A value that does not read as its declared type stays a string. -/
def coerceParam (v type : Text) : Json :=
  if type = "int".toList then (Text.atoi v).elim (.str v) .int
  else if type = "bool".toList then (parseBool v).elim (.str v) .bool
  else .str v

def FileModule.buildInbound (m : FileModule) (p : Params) (clients : List Client) :
    Except BuildError Json := do
  requireParams p m.specs
  needClients clients
  let clientArr ← m.buildClientArray clients
  let resolve := fun token =>
    if token = "clients" then some clientArr
    else (p.lookup token).map fun v => coerceParam v (m.paramType token)
  substituteTree resolve (.obj m.inbound)

inductive Strategy
  | builtin (s : Builtin)
  | file (m : FileModule)

def Strategy.buildInbound : Strategy → Params → List Client → Except BuildError Json
  | builtin s => s.buildInbound
  | file m => m.buildInbound

/-- A compiled strategy first, then the modules. -/
def strategyGet (files : List FileModule) (name : Text) : Option Strategy :=
  match Builtin.all.find? (·.name = name) with
  | some s => some (.builtin s)
  | none => ((FileModule.load files).find? (·.name = name)).map .file

end Protean.Xray
