import Umsftpd.JsonConfig

/-!
# What a configuration file means

The document is read for some keys, of which each has a type. It is rejected for the first thing in
it that is not of its type, and otherwise the configuration is found from the values of the keys
alone, whatever the order they come in.
-/

namespace Umsftpd

open CLib Systems JsonC

section Documents

variable (json : JsonC)

/-! ## Complaints -/

/-- The complaint about a value that is not of its type. -/
def complain (value : Option json.Object) (type : JsonType) (text : CStr) : List CStr :=
  if json.isType value type then [] else [errorString text]

def textComplaint (key : CStr) (value : Option json.Object) : List CStr :=
  complain json value .string ("config[\"base\"][\"".toList ++ key ++
    "\"] element not a string".toList)

def baseMemberComplaints (member : CStr × Option json.Object) : List CStr :=
  if member.1 = "bind_addr".toList then textComplaint json member.1 member.2
  else if member.1 = "bind_port".toList then
    complain json member.2 .int "config[\"base\"][\"bind_port\"] element not a integer".toList
  else if member.1 = "server_key_filename".toList then textComplaint json member.1 member.2
  else if member.1 = "loglevel".toList then textComplaint json member.1 member.2
  else []

def userComplaints (member : CStr × Option json.Object) : List CStr :=
  complain json member.2 .object ("config[\"auth\"][\"".toList ++ member.1 ++
    "\"] element not a dictionary".toList)

def rootMemberComplaints (member : CStr × Option json.Object) : List CStr :=
  if member.1 = "base".toList then
    complain json member.2 .object "config[\"base\"] element not a dictionary".toList ++
      (json.members member.2).flatMap (baseMemberComplaints json)
  else if member.1 = "auth".toList then
    complain json member.2 .object "config[\"auth\"] element not a dictionary".toList ++
      (json.members member.2).flatMap (userComplaints json)
  else if member.1 = "vfs".toList then
    complain json member.2 .object "config[\"vfs\"] element not a dictionary".toList
  else []

/-- All that is not of its type in a document, in the order in which the library goes over it. -/
def complaints (root : Option json.Object) : List CStr :=
  complain json root .object "root element not a dictionary".toList ++
    (json.members root).flatMap (rootMemberComplaints json)

/-! ## Updates -/

/-- What a member of the base changes. -/
def baseUpdate (config : JsonConfig json.Text) (member : CStr × Option json.Object) :
    JsonConfig json.Text :=
  let pointer := some (json.getString member.2)
  let base := config.base
  { base := {
      bindAddr := if member.1 = "bind_addr".toList then pointer else base.bindAddr
      bindPort := if member.1 = "bind_port".toList then json.getInt member.2 else base.bindPort
      serverKeyFilename :=
        if member.1 = "server_key_filename".toList then pointer else base.serverKeyFilename
      loglevel := if member.1 = "loglevel".toList then pointer else base.loglevel } }

def rootUpdate (config : JsonConfig json.Text) (member : CStr × Option json.Object) :
    JsonConfig json.Text :=
  if member.1 = "base".toList then (json.members member.2).foldl (baseUpdate json) config
  else config

variable {json}

section Checks

variable (value : Option json.Object) (type : JsonType) (text : CStr)
  (config : JsonConfig json.Text)

theorem complain_eq_nil {value : Option json.Object} {type : JsonType} {text : CStr} :
    complain json value type text = [] ↔ json.isType value type = true := by
  unfold complain
  split <;> simp_all

/-- A check and what follows where it is passed. -/
theorem check_then {more : List CStr} {x : Except CStr (JsonConfig json.Text)}
    (hx : x = firstComplaint more config) :
    (if !json.isType value type then .error (errorString text) else x) =
      firstComplaint (complain json value type text ++ more) config := by
  unfold complain
  cases json.isType value type with
  | true => exact hx
  | false => rfl

theorem check_ok :
    (if !json.isType value type then .error (errorString text) else .ok config) =
      firstComplaint (complain json value type text) config := by
  unfold complain
  cases json.isType value type <;> rfl

end Checks

/-- The four keys are different ones. -/
theorem base_keys : "bind_addr".toList ≠ "bind_port".toList ∧
    "bind_addr".toList ≠ "server_key_filename".toList ∧ "bind_addr".toList ≠ "loglevel".toList ∧
    "bind_port".toList ≠ "server_key_filename".toList ∧ "bind_port".toList ≠ "loglevel".toList ∧
    "server_key_filename".toList ≠ "loglevel".toList := by decide

theorem jsonconfigParseBaseMember_eq (config : JsonConfig json.Text)
    (member : CStr × Option json.Object) :
    jsonconfigParseBaseMember json config member =
      firstComplaint (baseMemberComplaints json member) (baseUpdate json config member) := by
  obtain ⟨key, value⟩ := member
  obtain ⟨h12, h13, h14, h23, h24, h34⟩ := base_keys
  unfold jsonconfigParseBaseMember baseMemberComplaints baseUpdate parseBaseText
  dsimp only
  generalize "bind_addr".toList = k1 at *
  generalize "bind_port".toList = k2 at *
  generalize "server_key_filename".toList = k3 at *
  generalize "loglevel".toList = k4 at *
  by_cases haddr : key = k1
  · subst haddr
    simp only [if_pos, if_neg h12, if_neg h13, if_neg h14]
    exact check_ok _ _ _ _
  simp only [if_neg haddr]
  by_cases hport : key = k2
  · subst hport
    simp only [if_pos, if_neg h23, if_neg h24]
    exact check_ok _ _ _ _
  simp only [if_neg hport]
  by_cases hfile : key = k3
  · subst hfile
    simp only [if_pos, if_neg h34]
    exact check_ok _ _ _ _
  simp only [if_neg hfile]
  by_cases hlevel : key = k4
  · subst hlevel
    simp only [if_pos]
    exact check_ok _ _ _ _
  simp only [if_neg hlevel]
  rfl

theorem jsonconfigParseAuthUser_eq (config : JsonConfig json.Text)
    (member : CStr × Option json.Object) :
    jsonconfigParseAuthUser json config member.1 member.2 =
      firstComplaint (userComplaints json member) config := check_ok _ _ _ _

theorem jsonconfigParseRootMember_eq (config : JsonConfig json.Text)
    (member : CStr × Option json.Object) :
    jsonconfigParseRootMember json config member =
      firstComplaint (rootMemberComplaints json member) (rootUpdate json config member) := by
  obtain ⟨key, value⟩ := member
  unfold jsonconfigParseRootMember rootMemberComplaints rootUpdate
  dsimp only
  by_cases hbase : key = "base".toList
  · simp only [if_pos hbase]
    exact check_then _ _ _ _
      (foldlM_checks jsonconfigParseBaseMember_eq config (json.members value))
  simp only [if_neg hbase]
  by_cases hauth : key = "auth".toList
  · simp only [if_pos hauth]
    have hloop := foldlM_checks jsonconfigParseAuthUser_eq config (json.members value)
    rw [List.foldl_fixed] at hloop
    exact check_then _ _ _ _ hloop
  simp only [if_neg hauth]
  by_cases hvfs : key = "vfs".toList
  · simp only [if_pos hvfs]
    exact check_ok _ _ _ _
  simp only [if_neg hvfs]
  rfl

/-- The parser: the first of the complaints, or all of the updates. -/
theorem jsonconfigParseRoot_eq (config : JsonConfig json.Text) (root : Option json.Object) :
    jsonconfigParseRoot json config root =
      firstComplaint (complaints json root) ((json.members root).foldl (rootUpdate json) config) :=
  check_then _ _ _ _ (foldlM_checks jsonconfigParseRootMember_eq config (json.members root))

/-! ## What is accepted -/

/-- The keys of the base and the types of their values. -/
def baseTypes : List (CStr × JsonType) := [
  ("bind_addr".toList, .string), ("bind_port".toList, .int),
  ("server_key_filename".toList, .string), ("loglevel".toList, .string)]

variable (json) in
/-- The types of all that is looked at in a document. -/
structure IsConfig (root : Option json.Object) : Prop where
  object : json.isType root .object = true
  base : ∀ v, json.member root "base".toList = some v → json.isType v .object = true ∧
    ∀ key type, (key, type) ∈ baseTypes → ∀ w, json.member v key = some w →
      json.isType w type = true
  auth : ∀ v, json.member root "auth".toList = some v → json.isType v .object = true ∧
    ∀ user w, json.member v user = some w → json.isType w .object = true
  vfs : ∀ v, json.member root "vfs".toList = some v → json.isType v .object = true

theorem baseMemberComplaints_eq_nil {key : CStr} {w : Option json.Object} :
    baseMemberComplaints json (key, w) = [] ↔
      ∀ type, (key, type) ∈ baseTypes → json.isType w type = true := by
  unfold baseMemberComplaints textComplaint baseTypes
  dsimp only
  by_cases haddr : key = "bind_addr".toList
  · simp only [if_pos haddr, complain_eq_nil]
    simp [haddr]
  simp only [if_neg haddr]
  by_cases hport : key = "bind_port".toList
  · simp only [if_pos hport, complain_eq_nil]
    simp [hport]
  simp only [if_neg hport]
  by_cases hfile : key = "server_key_filename".toList
  · simp only [if_pos hfile, complain_eq_nil]
    simp [hfile]
  simp only [if_neg hfile]
  by_cases hlevel : key = "loglevel".toList
  · simp only [if_pos hlevel, complain_eq_nil]
    simp [hlevel]
  · simp only [if_neg hlevel, true_iff]
    intro type hmem
    simp only [List.mem_cons, Prod.mk.injEq, List.not_mem_nil, or_false] at hmem
    grind

/-- There is no complaint about any member of a loop exactly when there is none about any key. -/
theorem flatMap_eq_nil_iff (hkeys : json.KeysDistinct) {value : Option json.Object}
    {memberComplaints : CStr × Option json.Object → List CStr} :
    (json.members value).flatMap memberComplaints = [] ↔
      ∀ key v, json.member value key = some v → memberComplaints (key, v) = [] := by
  rw [List.flatMap_eq_nil_iff]
  constructor
  · intro hall key v hmember
    exact hall _ ((member_eq_some_iff hkeys).mp hmember)
  · rintro hall ⟨key, v⟩ hmem
    exact hall key v ((member_eq_some_iff hkeys).mpr hmem)

theorem rootMemberComplaints_eq_nil (hkeys : json.KeysDistinct) {key : CStr}
    {v : Option json.Object} :
    rootMemberComplaints json (key, v) = [] ↔
      (key = "base".toList → json.isType v .object = true ∧
        ∀ key type, (key, type) ∈ baseTypes → ∀ w, json.member v key = some w →
          json.isType w type = true) ∧
      (key = "auth".toList → json.isType v .object = true ∧
        ∀ user w, json.member v user = some w → json.isType w .object = true) ∧
      (key = "vfs".toList → json.isType v .object = true) := by
  unfold rootMemberComplaints
  dsimp only
  by_cases hbase : key = "base".toList
  · simp only [if_pos hbase, List.append_eq_nil_iff, complain_eq_nil, flatMap_eq_nil_iff hkeys,
      baseMemberComplaints_eq_nil]
    have hauth : key ≠ "auth".toList := by rw [hbase]; decide
    have hvfs : key ≠ "vfs".toList := by rw [hbase]; decide
    grind
  simp only [if_neg hbase]
  by_cases hauth : key = "auth".toList
  · simp only [if_pos hauth, List.append_eq_nil_iff, complain_eq_nil, flatMap_eq_nil_iff hkeys,
      userComplaints]
    have hvfs : key ≠ "vfs".toList := by rw [hauth]; decide
    grind
  simp only [if_neg hauth]
  by_cases hvfs : key = "vfs".toList
  · simp only [if_pos hvfs, complain_eq_nil]
    grind
  · simp only [if_neg hvfs, true_iff]
    exact ⟨fun heq => absurd heq hbase, fun heq => absurd heq hauth, fun heq => absurd heq hvfs⟩

/-- A document without complaints is one in which everything is of its type. -/
theorem complaints_eq_nil_iff (hkeys : json.KeysDistinct) {root : Option json.Object} :
    complaints json root = [] ↔ IsConfig json root := by
  unfold complaints
  rw [List.append_eq_nil_iff, complain_eq_nil, flatMap_eq_nil_iff hkeys]
  constructor
  · rintro ⟨hroot, hmembers⟩
    have hkey := fun key v hv => (rootMemberComplaints_eq_nil hkeys).mp (hmembers key v hv)
    exact ⟨hroot, fun v hv => (hkey _ v hv).1 rfl, fun v hv => (hkey _ v hv).2.1 rfl,
      fun v hv => (hkey _ v hv).2.2 rfl⟩
  · rintro ⟨hroot, hbase, hauth, hvfs⟩
    refine ⟨hroot, fun key v hv => (rootMemberComplaints_eq_nil hkeys).mpr ?_⟩
    exact ⟨fun heq => hbase v (heq ▸ hv), fun heq => hauth v (heq ▸ hv),
      fun heq => hvfs v (heq ▸ hv)⟩

/-! ## What is built -/

variable (json) in
/-- The values of the keys of a base. -/
def describeBase (base : Option json.Object) : JsonBaseConfig json.Text where
  bindAddr := (json.member base "bind_addr".toList).map json.getString
  bindPort := (json.member base "bind_port".toList).elim 0 json.getInt
  serverKeyFilename := (json.member base "server_key_filename".toList).map json.getString
  loglevel := (json.member base "loglevel".toList).map json.getString

variable (json) in
/-- The configuration of a document: that of its base, if there is one. -/
def describeConfig (root : Option json.Object) : JsonConfig json.Text where
  base := (json.member root "base".toList).elim {} (describeBase json)

/-- What the loop over the base builds. -/
theorem foldl_baseUpdate (hkeys : json.KeysDistinct) (base : Option json.Object) :
    (json.members base).foldl (baseUpdate json) {} = { base := describeBase json base } := by
  have hnodup := hkeys.members base
  have hpointer : ∀ (get : JsonConfig json.Text → Option json.Text) (key : CStr), get {} = none →
      (∀ s a, get (baseUpdate json s a) =
        if a.1 = key then some (json.getString a.2) else get s) →
      get ((json.members base).foldl (baseUpdate json) {}) =
        (json.member base key).map json.getString := by
    intro get key hnone hupdate
    rw [foldl_lookup (baseUpdate json) get key (fun _ v => some (json.getString v)) hupdate {}
      hnodup, hnone]
    unfold member
    cases (json.members base).lookup key <;> rfl
  have hport := foldl_lookup (baseUpdate json) (fun c => c.base.bindPort) "bind_port".toList
    (fun _ v => json.getInt v) (fun _ _ => rfl) {} hnodup
  have haddr := hpointer (fun c => c.base.bindAddr) _ rfl fun _ _ => rfl
  have hfile := hpointer (fun c => c.base.serverKeyFilename) _ rfl fun _ _ => rfl
  have hlevel := hpointer (fun c => c.base.loglevel) _ rfl fun _ _ => rfl
  refine congrArg JsonConfig.mk ?_
  rw [JsonBaseConfig.mk.injEq]
  exact ⟨haddr, hport, hfile, hlevel⟩

theorem foldl_rootUpdate (hkeys : json.KeysDistinct) (root : Option json.Object) :
    (json.members root).foldl (rootUpdate json) {} = describeConfig json root := by
  have hfold := foldl_lookup (rootUpdate json) id "base".toList
    (fun c v => (json.members v).foldl (baseUpdate json) c) (fun _ _ => rfl) {}
    (hkeys.members root)
  rw [id] at hfold
  rw [hfold]
  unfold describeConfig
  cases hbase : json.member root "base".toList with
  | none =>
    rw [show (json.members root).lookup "base".toList = none from hbase]
    rfl
  | some v =>
    rw [show (json.members root).lookup "base".toList = some v from hbase]
    exact foldl_baseUpdate hkeys v

end Documents

end Umsftpd
