import Umsftpd.CLib.Json

/-!
# Configuration files (`jsonconfig.c`)

The parser goes over the members of the document in the order of the library and returns at the
first thing that is not of its type. The texts of a configuration point into the document.
-/

namespace Umsftpd

open CLib

/-! ## The configuration -/

/-- `struct json_base_config_t`; without arguments it is what `calloc` gives. -/
structure JsonBaseConfig (Text : Type) where
  bindAddr : Option Text := none
  bindPort : BitVec 32 := 0
  serverKeyFilename : Option Text := none
  loglevel : Option Text := none
  deriving DecidableEq

/-- `struct json_config_t`. -/
structure JsonConfig (Text : Type) where
  base : JsonBaseConfig Text := {}
  deriving DecidableEq

/-- `snprintf(ctx->error_string, JSON_PARSE_ERROR_MAXLEN, …)`. -/
def errorString (text : CStr) : CStr := text.take 63

/-! ## Parsing -/

section Parsing

variable (json : JsonC)

/-- A member of the base that has to be a text. -/
def parseBaseText (key : CStr) (value : Option json.Object)
    (set : Option json.Text → JsonConfig json.Text) : Except CStr (JsonConfig json.Text) :=
  if !json.isType value .string then
    .error (errorString ("config[\"base\"][\"".toList ++ key ++
      "\"] element not a string".toList))
  else .ok (set (some (json.getString value)))

/-- A round of the loop over the base. -/
def jsonconfigParseBaseMember (config : JsonConfig json.Text)
    (member : CStr × Option json.Object) : Except CStr (JsonConfig json.Text) :=
  let (key, value) := member
  if key = "bind_addr".toList then
    parseBaseText json key value fun text =>
      { config with base := { config.base with bindAddr := text } }
  else if key = "bind_port".toList then
    if !json.isType value .int then
      .error (errorString "config[\"base\"][\"bind_port\"] element not a integer".toList)
    else .ok { config with base := { config.base with bindPort := json.getInt value } }
  else if key = "server_key_filename".toList then
    parseBaseText json key value fun text =>
      { config with base := { config.base with serverKeyFilename := text } }
  else if key = "loglevel".toList then
    parseBaseText json key value fun text =>
      { config with base := { config.base with loglevel := text } }
  else .ok config

def jsonconfigParseBase (config : JsonConfig json.Text) (base : Option json.Object) :
    Except CStr (JsonConfig json.Text) :=
  if !json.isType base .object then
    .error (errorString "config[\"base\"] element not a dictionary".toList)
  else (json.members base).foldlM (jsonconfigParseBaseMember json) config

def jsonconfigParseAuthUser (config : JsonConfig json.Text) (userName : CStr)
    (authDict : Option json.Object) : Except CStr (JsonConfig json.Text) :=
  if !json.isType authDict .object then
    .error (errorString ("config[\"auth\"][\"".toList ++ userName ++
      "\"] element not a dictionary".toList))
  else .ok config

def jsonconfigParseAuth (config : JsonConfig json.Text) (auth : Option json.Object) :
    Except CStr (JsonConfig json.Text) :=
  if !json.isType auth .object then
    .error (errorString "config[\"auth\"] element not a dictionary".toList)
  else
    (json.members auth).foldlM
      (fun config member => jsonconfigParseAuthUser json config member.1 member.2) config

def jsonconfigParseVfs (config : JsonConfig json.Text) (vfs : Option json.Object) :
    Except CStr (JsonConfig json.Text) :=
  if !json.isType vfs .object then
    .error (errorString "config[\"vfs\"] element not a dictionary".toList)
  else .ok config

/-- A round of the loop over the root. -/
def jsonconfigParseRootMember (config : JsonConfig json.Text)
    (member : CStr × Option json.Object) : Except CStr (JsonConfig json.Text) :=
  let (key, value) := member
  if key = "base".toList then jsonconfigParseBase json config value
  else if key = "auth".toList then jsonconfigParseAuth json config value
  else if key = "vfs".toList then jsonconfigParseVfs json config value
  else .ok config

def jsonconfigParseRoot (config : JsonConfig json.Text) (root : Option json.Object) :
    Except CStr (JsonConfig json.Text) :=
  if !json.isType root .object then
    .error (errorString "root element not a dictionary".toList)
  else (json.members root).foldlM (jsonconfigParseRootMember json) config

end Parsing

/-! ## The call -/

/-- What `jsonconfig_parse` calls. -/
inductive JsonConfigCall where
  | calloc (ok : Bool)
  | fromFile (filename : CStr) (ok : Bool)
  | freeConfig
  | stderr (text : CStr)
  | put
  deriving DecidableEq

/-- What is returned, what is left of the document and what was called. -/
structure JsonConfigParse (json : JsonC) where
  config : Option (JsonConfig json.Text)
  memory : Option json.Memory
  calls : List JsonConfigCall

/-- `jsonconfig_parse`, for what `calloc` answers. -/
def jsonconfigParse (json : JsonC) (filename : CStr) (allocates : Bool) : JsonConfigParse json :=
  if !allocates then ⟨none, none, [.calloc false]⟩
  else
    match json.fromFile filename with
    | none => ⟨none, none, [.calloc true, .fromFile filename false, .freeConfig]⟩
    | some (root, memory) =>
      match jsonconfigParseRoot json {} (some root) with
      | .ok config =>
        ⟨some config, some (json.put memory root),
          [.calloc true, .fromFile filename true, .put]⟩
      | .error errorString =>
        ⟨none, some (json.put memory root),
          [.calloc true, .fromFile filename true, .freeConfig,
            .stderr ("parse error: ".toList ++ errorString ++ "\n".toList), .put]⟩

end Umsftpd
