import Umsftpd.JsonConfig.Meaning
import Umsftpd.Systems.Ledgers

/-!
# Loading a configuration file

What `jsonconfig_parse` makes of a file: which configuration, which error, and what is left in
memory. The texts of a configuration are those of the file as long as the document is there, and it
is gone before the caller has the configuration.
-/

namespace Umsftpd

open CLib Systems JsonC

/-! ## Sample files -/

/-- What is in the sample files. -/
inductive SampleNode where
  | root | base | bindAddr | bindPort | vfs
  deriving DecidableEq

def sampleType : Option (Bool × SampleNode) → JsonType
  | some (_, .bindAddr) => .string
  | some (_, .bindPort) => .int
  | some _ => .object
  | none => .null

def sampleMembers : Option (Bool × SampleNode) → List (CStr × Option (Bool × SampleNode))
  | some (false, .root) =>
    [("base".toList, some (false, .base)), ("vfs".toList, some (false, .vfs))]
  | some (true, .root) => [("vfs".toList, some (true, .vfs)), ("base".toList, some (true, .base))]
  | some (false, .base) =>
    [("bind_addr".toList, some (false, .bindAddr)), ("bind_port".toList, some (false, .bindPort))]
  | some (true, .base) =>
    [("bind_port".toList, some (true, .bindPort)), ("bind_addr".toList, some (true, .bindAddr))]
  | _ => []

/-- Three files: a configuration, the same with its members the other way round, and a number. -/
def sampleFile (filename : CStr) : Option ((Bool × SampleNode) × Nat) :=
  if filename = "configuration.json".toList then some ((false, .root), 1)
  else if filename = "reordered.json".toList then some ((true, .root), 1)
  else if filename = "number.json".toList then some ((false, .bindPort), 1)
  else none

/-- The library on these files. What is in memory are the references to the root. -/
def CLib.JsonC.sample : JsonC where
  Object := Bool × SampleNode
  Text := Option (Bool × SampleNode)
  Memory := Nat
  fromFile := sampleFile
  isType value type := sampleType value == type
  members := sampleMembers
  getString value := value
  getInt _ := 12345
  put refs _ := refs - 1
  refs refs _ := refs
  readText refs text :=
    if refs > 0 ∧ sampleType text = .string then some "127.0.0.1".toList else none

theorem sample_keysDistinct : JsonC.sample.KeysDistinct where
  members := by
    show ∀ value, ((sampleMembers value).map Prod.fst).Nodup
    rintro (_ | ⟨_ | _, _ | _⟩) <;> decide

theorem sampleFile_refs {filename : CStr} {root : Bool × SampleNode} {refs : Nat}
    (hfile : sampleFile filename = some (root, refs)) : refs = 1 := by
  unfold sampleFile at hfile
  generalize "configuration.json".toList = configuration at hfile
  generalize "reordered.json".toList = reordered at hfile
  generalize "number.json".toList = number at hfile
  grind

theorem sample_ownsTexts : JsonC.sample.OwnsTexts where
  loaded hfile := sampleFile_refs hfile
  put _ := rfl
  texts := by
    intro filename root memory value _ _ hstring refs _
    change Nat at refs
    have htype : sampleType value = .string := eq_of_beq hstring
    show (∃ text, (if refs > 0 ∧ sampleType value = .string then some "127.0.0.1".toList
      else none) = some text) ↔ 0 < refs
    generalize "127.0.0.1".toList = address
    simp [htype]

section Documents

variable {json : JsonC}

/-! ## The result -/

section Loaded

variable {filename : CStr} {root : json.Object} {memory : json.Memory}
  (hfile : json.fromFile filename = some (root, memory))
include hfile

theorem jsonconfigParse_of_ok {config : JsonConfig json.Text}
    (hroot : jsonconfigParseRoot json {} (some root) = .ok config) :
    jsonconfigParse json filename true = ⟨some config, some (json.put memory root),
      [.calloc true, .fromFile filename true, .put]⟩ := by
  simp only [jsonconfigParse, Bool.not_true, Bool.false_eq_true, if_false, hfile, hroot]

theorem jsonconfigParse_of_error {complaint : CStr}
    (hroot : jsonconfigParseRoot json {} (some root) = .error complaint) :
    jsonconfigParse json filename true = ⟨none, some (json.put memory root),
      [.calloc true, .fromFile filename true, .freeConfig,
        .stderr ("parse error: ".toList ++ complaint ++ "\n".toList), .put]⟩ := by
  simp only [jsonconfigParse, Bool.not_true, Bool.false_eq_true, if_false, hfile, hroot]

end Loaded

/-- The configuration that is returned, unless there are complaints. -/
theorem jsonconfigParse_config (hkeys : json.KeysDistinct) {filename : CStr} {root : json.Object}
    {memory : json.Memory} (hfile : json.fromFile filename = some (root, memory)) :
    (jsonconfigParse json filename true).config =
      if complaints json (some root) = [] then some (describeConfig json (some root))
      else none := by
  have hroot := jsonconfigParseRoot_eq {} (some root)
  rw [foldl_rootUpdate hkeys] at hroot
  cases hcomplaints : complaints json (some root) with
  | nil =>
    rw [hcomplaints, firstComplaint_nil] at hroot
    rw [jsonconfigParse_of_ok hfile hroot]
    rfl
  | cons complaint more =>
    rw [hcomplaints, firstComplaint_cons] at hroot
    rw [jsonconfigParse_of_error hfile hroot]
    rfl

/-- **Acceptance.** A file gives a configuration exactly when all that is looked at in it is of its
type, and then that is found from the values of its keys alone. -/
theorem jsonconfigParse_accepts (hkeys : json.KeysDistinct) (filename : CStr)
    (config : JsonConfig json.Text) :
    (jsonconfigParse json filename true).config = some config ↔
      ∃ root memory, json.fromFile filename = some (root, memory) ∧
        IsConfig json (some root) ∧ config = describeConfig json (some root) := by
  cases hfile : json.fromFile filename with
  | none =>
    unfold jsonconfigParse
    simp [hfile]
  | some loaded =>
    obtain ⟨root, memory⟩ := loaded
    rw [jsonconfigParse_config hkeys hfile, Option.ite_none_right_eq_some,
      complaints_eq_nil_iff hkeys, Option.some_inj]
    constructor
    · rintro ⟨hconfig, rfl⟩
      exact ⟨root, memory, rfl, hconfig, rfl⟩
    · rintro ⟨_, _, ⟨⟩, hconfig, rfl⟩
      exact ⟨hconfig, rfl⟩

theorem jsonconfigParse_accepts_sample :
    (jsonconfigParse JsonC.sample "configuration.json".toList true).config =
      some ⟨⟨some (some (false, .bindAddr)), 12345, none, none⟩⟩ :=
  (jsonconfigParse_accepts sample_keysDistinct "configuration.json".toList _).mpr
    ⟨(false, .root), (1 : Nat), rfl, (complaints_eq_nil_iff sample_keysDistinct).mp (by decide),
      rfl⟩

/-! ## The order of members -/

/-- Values of the same type, with members that go together for each key, whatever the order they
come in. -/
structure SameMembers (R : Option json.Object → Option json.Object → Prop)
    (v v' : Option json.Object) : Prop where
  types : ∀ type, json.isType v type = json.isType v' type
  members : ∀ key, Option.Rel R (json.member v key) (json.member v' key)

/-- Values of the same type, as which they read the same. -/
structure SameValue (memory memory' : json.Memory) (v v' : Option json.Object) : Prop where
  types : ∀ type, json.isType v type = json.isType v' type
  int : json.isType v .int = true → json.getInt v = json.getInt v'
  text : json.isType v .string = true →
    json.readText memory (json.getString v) = json.readText memory' (json.getString v')

/-- Documents that differ at most in the order of the members of the root and of what is below. -/
def SameDocument (memory memory' : json.Memory) : Option json.Object → Option json.Object → Prop :=
  SameMembers (SameMembers (SameValue memory memory'))

/-- Members in another order, with values that go together. -/
theorem SameMembers.of_perm (hkeys : json.KeysDistinct)
    {R : Option json.Object → Option json.Object → Prop} {v v' : Option json.Object}
    (types : ∀ type, json.isType v type = json.isType v' type)
    {ms : List (CStr × Option json.Object)} (hperm : (json.members v).Perm ms)
    (hrel : List.Forall₂ (fun a b => a.1 = b.1 ∧ R a.2 b.2) ms (json.members v')) :
    SameMembers R v v' := by
  refine ⟨types, fun key => ?_⟩
  have hlookup := lookup_forall₂ hrel key
  rwa [lookup_perm hperm (hkeys.members v)] at hlookup

theorem SameMembers.symm {R S : Option json.Object → Option json.Object → Prop}
    (hsymm : ∀ {w w'}, R w w' → S w' w) {v v' : Option json.Object} (h : SameMembers R v v') :
    SameMembers S v' v := by
  refine ⟨fun type => (h.types type).symm, fun key => ?_⟩
  have hrel := h.members key
  generalize json.member v key = m at hrel ⊢
  generalize json.member v' key = m' at hrel ⊢
  cases hrel with
  | none => exact .none
  | some hR => exact .some (hsymm hR)

theorem SameValue.symm {memory memory' : json.Memory} {v v' : Option json.Object}
    (h : SameValue memory memory' v v') : SameValue memory' memory v' v := by
  refine ⟨fun type => (h.types type).symm, fun hint => (h.int ?_).symm,
    fun htext => (h.text ?_).symm⟩
  · rw [h.types, hint]
  · rw [h.types, htext]

/-- What the first value has at a key of the second. -/
theorem SameMembers.member {R : Option json.Object → Option json.Object → Prop}
    {v v' w' : Option json.Object} (h : SameMembers R v v') {key : CStr}
    (hw' : json.member v' key = some w') : ∃ w, json.member v key = some w ∧ R w w' := by
  have hrel := h.members key
  rw [hw'] at hrel
  generalize json.member v key = m at hrel ⊢
  cases hrel with
  | some hR => exact ⟨_, rfl, hR⟩

section SameDocument

variable {memory memory' : json.Memory} {root root' : Option json.Object}
  (h : SameDocument memory memory' root root')
include h

theorem SameDocument.symm : SameDocument memory' memory root' root :=
  SameMembers.symm (SameMembers.symm SameValue.symm) h

theorem SameDocument.isConfig (hconfig : IsConfig json root) : IsConfig json root' := by
  refine ⟨h.types .object ▸ hconfig.object, fun v' hv' => ?_, fun v' hv' => ?_,
    fun v' hv' => ?_⟩
  · obtain ⟨v, hv, hsame⟩ := SameMembers.member h hv'
    obtain ⟨hobject, htypes⟩ := hconfig.base v hv
    refine ⟨hsame.types .object ▸ hobject, fun key type hmem w' hw' => ?_⟩
    obtain ⟨w, hw, hvalue⟩ := hsame.member hw'
    exact hvalue.types type ▸ htypes key type hmem w hw
  · obtain ⟨v, hv, hsame⟩ := SameMembers.member h hv'
    obtain ⟨hobject, husers⟩ := hconfig.auth v hv
    refine ⟨hsame.types .object ▸ hobject, fun user w' hw' => ?_⟩
    obtain ⟨w, hw, hvalue⟩ := hsame.member hw'
    exact hvalue.types .object ▸ husers user w hw
  · obtain ⟨v, hv, hsame⟩ := SameMembers.member h hv'
    exact hsame.types .object ▸ hconfig.vfs v hv

end SameDocument

/-- The configuration with its texts as a function has them. -/
def JsonConfig.map {Text Text' : Type} (f : Text → Text') (config : JsonConfig Text) :
    JsonConfig Text' where
  base := {
    bindAddr := config.base.bindAddr.map f
    bindPort := config.base.bindPort
    serverKeyFilename := config.base.serverKeyFilename.map f
    loglevel := config.base.loglevel.map f }

/-- Bases with the same values are read the same, if the values are of the types that are asked
for. -/
theorem SameMembers.describeBase {memory memory' : json.Memory} {v v' : Option json.Object}
    (h : SameMembers (SameValue memory memory') v v')
    (htypes : ∀ key type, (key, type) ∈ baseTypes → ∀ w, json.member v key = some w →
      json.isType w type = true) :
    JsonConfig.map (json.readText memory) ⟨Umsftpd.describeBase json v⟩ =
      JsonConfig.map (json.readText memory') ⟨Umsftpd.describeBase json v'⟩ := by
  have htext : ∀ key, (key, .string) ∈ baseTypes →
      ((json.member v key).map json.getString).map (json.readText memory) =
        ((json.member v' key).map json.getString).map (json.readText memory') := by
    intro key hkey
    rw [Option.map_map, Option.map_map]
    exact map_of_rel (h.members key) fun w _ hw hvalue =>
      hvalue.text (htypes key .string hkey w hw)
  have hport : (json.member v "bind_port".toList).elim 0 json.getInt =
      (json.member v' "bind_port".toList).elim 0 json.getInt :=
    elim_of_rel (h.members _) (fun w _ hw hvalue =>
      hvalue.int (htypes _ .int (by decide) w hw)) 0
  unfold JsonConfig.map Umsftpd.describeBase
  dsimp only
  rw [htext _ (by decide), htext _ (by decide), htext _ (by decide), hport]

theorem SameDocument.describeConfig {memory memory' : json.Memory}
    {root root' : Option json.Object} (h : SameDocument memory memory' root root')
    (hconfig : IsConfig json root) :
    (describeConfig json root).map (json.readText memory) =
      (Umsftpd.describeConfig json root').map (json.readText memory') := by
  have hbase : ∀ (memory : json.Memory) (root : Option json.Object),
      (Umsftpd.describeConfig json root).map (json.readText memory) =
        (json.member root "base".toList).elim {} fun v =>
          JsonConfig.map (json.readText memory) ⟨describeBase json v⟩ := by
    intro memory root
    unfold Umsftpd.describeConfig
    cases json.member root "base".toList <;> rfl
  rw [hbase, hbase]
  exact elim_of_rel (h.members _) (fun v _ hv hsame =>
    hsame.describeBase (hconfig.base v hv).2) {}

/-- **Order of members.** Files that differ at most in the order of members give configurations
that read the same while their documents are there, or none of them gives one. -/
theorem jsonconfigParse_reordered (hkeys : json.KeysDistinct) {filename filename' : CStr}
    {root root' : json.Object} {memory memory' : json.Memory}
    (hfile : json.fromFile filename = some (root, memory))
    (hfile' : json.fromFile filename' = some (root', memory'))
    (h : SameDocument memory memory' (some root) (some root')) :
    (jsonconfigParse json filename true).config.map (JsonConfig.map (json.readText memory)) =
      (jsonconfigParse json filename' true).config.map
        (JsonConfig.map (json.readText memory')) := by
  rw [jsonconfigParse_config hkeys hfile, jsonconfigParse_config hkeys hfile']
  have hiff : complaints json (some root) = [] ↔ complaints json (some root') = [] := by
    rw [complaints_eq_nil_iff hkeys, complaints_eq_nil_iff hkeys]
    exact ⟨h.isConfig, h.symm.isConfig⟩
  by_cases hnil : complaints json (some root) = []
  · rw [if_pos hnil, if_pos (hiff.mp hnil)]
    exact congrArg some (h.describeConfig ((complaints_eq_nil_iff hkeys).mp hnil))
  · rw [if_neg hnil, if_neg (mt hiff.mpr hnil)]
    rfl

/-- The second sample file has the members of the first one, the other way round. -/
theorem sample_sameDocument :
    @SameDocument JsonC.sample (1 : Nat) (1 : Nat) (some (false, .root)) (some (true, .root)) := by
  have hvalue : ∀ node, @SameValue JsonC.sample (1 : Nat) (1 : Nat) (some (false, node))
      (some (true, node)) := by
    intro node
    refine ⟨fun type => ?_, fun _ => rfl, fun _ => ?_⟩ <;> cases node <;> rfl
  have htypes : ∀ node type, JsonC.sample.isType (some (false, node)) type =
      JsonC.sample.isType (some (true, node)) type := fun node => (hvalue node).types
  have hbase : @SameMembers JsonC.sample (@SameValue JsonC.sample (1 : Nat) (1 : Nat))
      (some (false, .base)) (some (true, .base)) :=
    .of_perm sample_keysDistinct (htypes .base) (List.Perm.swap _ _ [])
      (.cons ⟨rfl, hvalue .bindPort⟩ (.cons ⟨rfl, hvalue .bindAddr⟩ .nil))
  have hvfs : @SameMembers JsonC.sample (@SameValue JsonC.sample (1 : Nat) (1 : Nat))
      (some (false, .vfs)) (some (true, .vfs)) :=
    .of_perm sample_keysDistinct (htypes .vfs) (.refl []) .nil
  exact .of_perm sample_keysDistinct (htypes .root) (List.Perm.swap _ _ [])
    (.cons ⟨rfl, hvfs⟩ (.cons ⟨rfl, hbase⟩ .nil))

theorem jsonconfigParse_reordered_sample :
    (jsonconfigParse JsonC.sample "configuration.json".toList true).config.map
        (JsonConfig.map (JsonC.sample.readText (1 : Nat))) =
      (jsonconfigParse JsonC.sample "reordered.json".toList true).config.map
        (JsonConfig.map (JsonC.sample.readText (1 : Nat))) :=
  jsonconfigParse_reordered sample_keysDistinct rfl rfl sample_sameDocument

/-! ## Errors -/

theorem length_complain_le {value : Option json.Object} {type : JsonType} {text : CStr} :
    ∀ complaint ∈ complain json value type text, complaint.length ≤ 63 := by
  unfold complain
  split
  · simp
  · rw [List.forall_mem_singleton]
    exact List.length_take_le 63 text

theorem length_baseMemberComplaints_le (member : CStr × Option json.Object) :
    ∀ complaint ∈ baseMemberComplaints json member, complaint.length ≤ 63 := by
  unfold baseMemberComplaints textComplaint
  split
  · exact length_complain_le
  split
  · exact length_complain_le
  split
  · exact length_complain_le
  split
  · exact length_complain_le
  · simp

theorem length_rootMemberComplaints_le (member : CStr × Option json.Object) :
    ∀ complaint ∈ rootMemberComplaints json member, complaint.length ≤ 63 := by
  unfold rootMemberComplaints
  split
  · rw [List.forall_mem_append, List.forall_mem_flatMap]
    exact ⟨length_complain_le, fun m _ => length_baseMemberComplaints_le m⟩
  split
  · rw [List.forall_mem_append, List.forall_mem_flatMap]
    exact ⟨length_complain_le, fun m _ => length_complain_le⟩
  split
  · exact length_complain_le
  · simp

theorem length_complaints_le (root : Option json.Object) :
    ∀ complaint ∈ complaints json root, complaint.length ≤ 63 := by
  unfold complaints
  rw [List.forall_mem_append, List.forall_mem_flatMap]
  exact ⟨length_complain_le, fun m _ => length_rootMemberComplaints_le m⟩

/-- **Errors.** A document is rejected for the first thing in it that is not of its type, in the
order in which the library goes over the members: that is all that is printed, and it is cut off
behind 63 characters. -/
theorem jsonconfigParse_errors {filename : CStr} {root : json.Object} {memory : json.Memory}
    (hfile : json.fromFile filename = some (root, memory)) :
    (∀ complaint, (complaints json (some root)).head? = some complaint →
      (jsonconfigParse json filename true).config = none ∧
      (jsonconfigParse json filename true).calls =
        [.calloc true, .fromFile filename true, .freeConfig,
          .stderr ("parse error: ".toList ++ complaint ++ "\n".toList), .put]) ∧
    (complaints json (some root) = [] →
      (jsonconfigParse json filename true).config.isSome = true ∧
      (jsonconfigParse json filename true).calls =
        [.calloc true, .fromFile filename true, .put]) ∧
    ∀ complaint ∈ complaints json (some root), complaint.length ≤ 63 := by
  have hparse := jsonconfigParseRoot_eq {} (some root)
  refine ⟨fun complaint hhead => ?_, fun hnil => ?_, length_complaints_le (some root)⟩
  · obtain ⟨more, hmore⟩ : ∃ more, complaints json (some root) = complaint :: more :=
      (List.head?_eq_some_iff).mp hhead
    rw [hmore, firstComplaint_cons] at hparse
    rw [jsonconfigParse_of_error hfile hparse]
    exact ⟨rfl, rfl⟩
  · rw [hnil, firstComplaint_nil] at hparse
    rw [jsonconfigParse_of_ok hfile hparse]
    exact ⟨rfl, rfl⟩

theorem jsonconfigParse_errors_number :
    (jsonconfigParse JsonC.sample "number.json".toList true).calls =
      [.calloc true, .fromFile "number.json".toList true, .freeConfig,
        .stderr "parse error: root element not a dictionary\n".toList, .put] :=
  ((jsonconfigParse_errors (show JsonC.sample.fromFile "number.json".toList = _ from rfl)).1
    "root element not a dictionary".toList rfl).2

/-! ## Memory -/

/-- What is allocated and released: the configuration, and the document if there is one. -/
inductive JsonConfigResource where
  | config | tree
  deriving DecidableEq

def jsonConfigEntry : JsonConfigCall → Option (Entry JsonConfigResource)
  | .calloc true => some (.acquire .config)
  | .fromFile _ true => some (.acquire .tree)
  | .freeConfig => some (.release .config)
  | .put => some (.release .tree)
  | _ => none

/-- The texts of a configuration. -/
def JsonConfig.pointers {Text : Type} (config : JsonConfig Text) : List Text :=
  [config.base.bindAddr, config.base.serverKeyFilename, config.base.loglevel].filterMap id

/-- A text of the configuration is one of the document. -/
theorem IsConfig.pointers (hkeys : json.KeysDistinct) {root : json.Object}
    (h : IsConfig json (some root)) :
    ∀ pointer ∈ (describeConfig json (some root)).pointers,
      ∃ value, json.Below root value ∧ json.isType value .string = true ∧
        json.getString value = pointer := by
  unfold JsonConfig.pointers describeConfig
  cases hbase : json.member (some root) "base".toList with
  | none => simp
  | some v =>
    have hv : json.Below root v :=
      .member .root ((member_eq_some_iff hkeys).mp hbase)
    have hkey : ∀ key, (key, .string) ∈ baseTypes → ∀ pointer,
        (json.member v key).map json.getString = some pointer →
        ∃ value, json.Below root value ∧ json.isType value .string = true ∧
          json.getString value = pointer := by
      intro key htype pointer hpointer
      obtain ⟨w, hw, rfl⟩ := Option.map_eq_some_iff.mp hpointer
      exact ⟨w, .member hv ((member_eq_some_iff hkeys).mp hw),
        (h.base v hbase).2 key .string htype w hw, rfl⟩
    intro pointer hmem
    obtain ⟨field, hfield, hsome⟩ := List.mem_filterMap.mp hmem
    obtain rfl : field = some pointer := hsome
    simp only [Option.elim_some, describeBase, List.mem_cons, List.not_mem_nil, or_false] at hfield
    rcases hfield with haddr | hfile | hlevel
    · exact hkey _ (by decide) pointer haddr.symm
    · exact hkey _ (by decide) pointer hfile.symm
    · exact hkey _ (by decide) pointer hlevel.symm

/-- A document that was loaded is released, and it depends on the complaints what else happens. -/
theorem jsonconfigParse_loaded {filename : CStr} {root : json.Object} {memory : json.Memory}
    (hfile : json.fromFile filename = some (root, memory)) :
    (jsonconfigParse json filename true).memory = some (json.put memory root) ∧
      settle jsonConfigEntry (jsonconfigParse json filename true).calls [] =
        some (if (jsonconfigParse json filename true).config.isSome then [.config] else []) := by
  cases hroot : jsonconfigParseRoot json {} (some root) with
  | ok config =>
    rw [jsonconfigParse_of_ok hfile hroot]
    exact ⟨rfl, rfl⟩
  | error complaint =>
    rw [jsonconfigParse_of_error hfile hroot]
    exact ⟨rfl, rfl⟩

/-- **Memory.** Whatever the file and the memory, nothing is released twice and nothing stays but
the configuration that is returned; but each of its texts, which could be read while the document
was there, is gone with it. -/
theorem jsonconfigParse_memory (hkeys : json.KeysDistinct) (howns : json.OwnsTexts)
    (filename : CStr) (allocates : Bool) :
    settle jsonConfigEntry (jsonconfigParse json filename allocates).calls [] =
        some (if (jsonconfigParse json filename allocates).config.isSome then [.config] else []) ∧
      ∀ config, (jsonconfigParse json filename allocates).config = some config →
        ∃ root memory left, json.fromFile filename = some (root, memory) ∧
          (jsonconfigParse json filename allocates).memory = some left ∧
          ∀ pointer ∈ config.pointers,
            (∃ text, json.readText memory pointer = some text) ∧
              json.readText left pointer = none := by
  cases allocates with
  | false => exact ⟨rfl, fun config hconfig => absurd hconfig (by simp [jsonconfigParse])⟩
  | true =>
    constructor
    · cases hfile : json.fromFile filename with
      | none =>
        unfold jsonconfigParse
        rw [if_neg (by simp), hfile]
        rfl
      | some loaded => exact (jsonconfigParse_loaded hfile).2
    · intro config hconfig
      obtain ⟨root, memory, hfile, hisConfig, rfl⟩ :=
        (jsonconfigParse_accepts hkeys filename config).mp hconfig
      have hone := howns.loaded hfile
      refine ⟨root, memory, json.put memory root, hfile, (jsonconfigParse_loaded hfile).1,
        fun pointer hmem => ?_⟩
      obtain ⟨value, hbelow, hstring, rfl⟩ := hisConfig.pointers hkeys pointer hmem
      have htexts := howns.texts hfile hbelow hstring
      have hpos : 0 < json.refs memory root := by omega
      refine ⟨(htexts memory .loaded).mpr hpos, ?_⟩
      rw [Option.eq_none_iff_forall_ne_some]
      intro text htext
      have hrefs := (htexts _ (.put .loaded hpos)).mp ⟨text, htext⟩
      rw [howns.put hpos, hone] at hrefs
      exact absurd hrefs (by decide)

theorem jsonconfigParse_memory_sample : ∃ config pointer left,
    (jsonconfigParse JsonC.sample "configuration.json".toList true).config = some config ∧
      config.base.bindAddr = some pointer ∧
      (jsonconfigParse JsonC.sample "configuration.json".toList true).memory = some left ∧
      JsonC.sample.readText left pointer = none := by
  obtain ⟨_, _, left, -, hleft, hpointers⟩ := (jsonconfigParse_memory sample_keysDistinct
    sample_ownsTexts "configuration.json".toList true).2 _ rfl
  exact ⟨_, some (false, .bindAddr), left, rfl, rfl, hleft,
    (hpointers _ (List.mem_singleton.mpr rfl)).2⟩

end Documents

end Umsftpd
