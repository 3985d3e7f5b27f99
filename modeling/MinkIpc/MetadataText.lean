import MinkIpc.IDEncode
import Mathlib.Data.Finset.Union

/-! The signing script. It turns a dictionary of program attributes into the metadata text
that the loader parses. -/

namespace MinkIpc.Metadata

open List

/-- The text functions of Python that the script rests on. The encoding in which its text reaches
the loader extends ASCII. -/
structure Python where
  lower : List Char → List Char
  printList : List (List Char) → List Char
  encode : Char → List UInt8
  encode_ascii : ∀ c, c.toNat < 128 → encode c = [UInt8.ofNat c.toNat]
  encode_other : ∀ c, 128 ≤ c.toNat → ∀ b ∈ encode c, 128 ≤ b

def Python.bytes (py : Python) (text : List Char) : List UInt8 := text.flatMap py.encode

inductive Value where
  | none
  | str (s : List Char)
  | strs (ids : List (List Char))
  deriving DecidableEq, Repr

/-- What a `for` loop gets from a value: a string is an iterable of its characters. -/
def Value.items : Value → List (List Char)
  | none => []
  | str s => s.map fun c => [c]
  | strs ids => ids

def Value.print (py : Python) : Value → List Char
  | none => "None".toList
  | str s => s
  | strs ids => py.printList ids

inductive Field where
  | privileges
  | services
  | appName
  | neverUnload
  deriving DecidableEq, Repr

namespace Field

def all : List Field := [privileges, services, appName, neverUnload]

def name : Field → List Char
  | privileges => "privileges".toList
  | services => "services".toList
  | appName => "appName".toList
  | neverUnload => "neverUnload".toList

def abbr : Field → Char
  | privileges => 'p'
  | services => 's'
  | appName => 'n'
  | neverUnload => 'U'

def defaultKey : List Char := "default".toList

def default : Field → Value
  | privileges => .strs [defaultKey]
  | services => .none
  | appName => .none
  | neverUnload => .none

def ofName (name : List Char) : Option Field := all.find? fun f => f.name = name

end Field

inductive PyError where
  | exception (text : List Char)
  | typeError
  | attributeError
  deriving DecidableEq, Repr

abbrev Dict := List (List Char × Value)

def Dict.value (data : Dict) (field : Field) : Value :=
  (data.lookup field.name).getD field.default

def replace (old : Char) (new : List Char) (value : List Char) : List Char :=
  value.flatMap fun c => if c = old then new else [c]

def escape (value : List Char) : List Char :=
  replace '=' "%3D".toList (replace ';' "%3B".toList
    (replace ',' "%2C".toList (replace '%' "%25".toList value)))

structure Pattern where
  regex : List Char
  accepts : List Char → Bool

/-- `re.match('^(regex)$', str)` for a pattern that has no newline: the dollar sign also matches
before a newline that ends the string. -/
def Pattern.matches (p : Pattern) (str : List Char) : Bool :=
  p.accepts str || (str.getLast? = some '\n' && p.accepts str.dropLast)

def namePattern : Pattern where
  regex := ".\x7b1,31\x7d".toList
  accepts s := 1 ≤ s.length && s.length ≤ 31 && !s.contains '\n'

def isIdStart (c : Char) : Bool := ('a' ≤ c && c ≤ 'z') || ('A' ≤ c && c ≤ 'Z') || c = '_'

def isId : List Char → Bool
  | [] => false
  | c :: cs => isIdStart c && cs.all fun c => isIdStart c || ('0' ≤ c && c ≤ '9')

def idPattern : Pattern where
  regex := "[a-zA-Z_][a-zA-Z_0-9]*".toList
  accepts := isId

def checkStr (field : List Char) (pattern : Pattern) (str : List Char) :
    Except PyError (List Char) :=
  if pattern.matches str then .ok (escape str)
  else .error (.exception ("Metadata ".toList ++ field ++ " value \"".toList ++ str ++
    "\" does not conform to pattern /".toList ++ pattern.regex ++ "/".toList))

def checkBoolean (py : Python) (field : List Char) (value : Value) : Except PyError (List Char) :=
  if value = .str "true".toList then .ok (escape "true".toList)
  else if value = .str "false".toList then .ok (escape "false".toList)
  else .error (.exception ("Metadata ".toList ++ field ++ " value \"".toList ++ value.print py ++
    "\" does not equal to \"true\" or \"false\" ".toList))

/-- `_gen_class_set`. The default privileges are not there yet while the constructor computes
them. -/
def genClassSet (py : Python) (classIdMap : List Char → Option Nat)
    (defaultPrivileges : Option (Finset Nat)) (field : List Char) :
    List (List Char) → Finset Nat → Except PyError (Finset Nat)
  | [], values => .ok values
  | id :: ids, values =>
    match checkStr field idPattern id with
    | .error e => .error e
    | .ok classId =>
      if py.lower classId = Field.defaultKey then
        match defaultPrivileges with
        | none => .error .attributeError
        | some numbers =>
          genClassSet py classIdMap defaultPrivileges field ids (values ∪ numbers)
      else
        match classIdMap (py.lower classId) with
        | some classNum =>
          genClassSet py classIdMap defaultPrivileges field ids (insert classNum values)
        | none => .error (.exception ("Invalid metadata class id: ".toList ++ id))

def defaultPrivilegeIds : List (List Char) := ["TProcessLoader".toList, "TMemPoolFactory".toList]

structure Signer where
  classIdMap : List Char → Option Nat
  defaultPrivileges : Finset Nat

namespace Signer

def new (py : Python) (classIdMap : List Char → Option Nat) : Except PyError Signer :=
  match genClassSet py classIdMap none "None".toList defaultPrivilegeIds ∅ with
  | .error e => .error e
  | .ok numbers => .ok ⟨classIdMap, numbers⟩

def genClassSetString (py : Python) (sg : Signer) (field : List Char)
    (ids : List (List Char)) : Except PyError (Option (List Char)) :=
  match genClassSet py sg.classIdMap (some sg.defaultPrivileges) field ids ∅ with
  | .error e => .error e
  | .ok values => .ok (if values.card = 0 then none else some (encodeIdSet values))

def handle (py : Python) (sg : Signer) (field : Field) (value : Value) :
    Except PyError (Option (List Char)) :=
  match field, value with
  | .privileges, value => sg.genClassSetString py field.name value.items
  | .services, value => sg.genClassSetString py field.name value.items
  | .appName, .str s => (checkStr field.name namePattern s).map some
  | .appName, _ => .error .typeError
  | .neverUnload, value => (checkBoolean py field.name value).map some

def extractField (py : Python) (sg : Signer) (data : Dict) (field : Field) :
    Except PyError (Option (List Char)) :=
  match data.value field with
  | .none => .ok none
  | value => sg.handle py field value

def invalidName (py : Python) (name : List Char) : PyError :=
  match Field.all.find? fun f => (py.lower f.name).take 3 = (py.lower name).take 3 with
  | some f => .exception ("Invalid metadata field name \"".toList ++ name ++
      "\" - should be \"".toList ++ f.name ++ "\"".toList)
  | none => .exception ("Invalid metadata field name \"".toList ++ name ++
      "\" - should be one of: appName, neverUnload, privileges, services".toList)

def process (py : Python) (sg : Signer) (data : Dict) :
    Dict → List (Char × List Char) → Except PyError (List (Char × List Char))
  | [], metadata => .ok metadata
  | (name, _) :: rest, metadata =>
    match Field.ofName name with
    | none => .error (invalidName py name)
    | some field =>
      match sg.extractField py data field with
      | .error e => .error e
      | .ok none => process py sg data rest metadata
      | .ok (some s) =>
        if (metadata.lookup field.abbr).isSome then
          .error (.exception ("Field \"".toList ++ name ++ "\" appears multiple times.".toList))
        else process py sg data rest (metadata ++ [(field.abbr, s)])

def sortedFields : List Field := [.neverUnload, .appName, .privileges, .services]

def render (text : Field → Option (List Char)) : List Char :=
  [';'].intercalate (sortedFields.filterMap fun f => (text f).map fun s => f.abbr :: '=' :: s)

def withPrivileges (data : Dict) : Dict :=
  if (data.lookup Field.privileges.name).isNone then
    data ++ [(Field.privileges.name, Field.privileges.default)]
  else data

def generateMetadata (py : Python) (sg : Signer) (data : Dict) : Except PyError (List Char) :=
  match sg.process py (withPrivileges data) (withPrivileges data) [] with
  | .error e => .error e
  | .ok metadata => .ok (render fun f => metadata.lookup f.abbr)

end Signer

section Escape

def escapeChar (c : Char) : List Char :=
  if c = '%' then "%25".toList else if c = ',' then "%2C".toList
  else if c = ';' then "%3B".toList else if c = '=' then "%3D".toList else [c]

theorem replace_append (old : Char) (new s t : List Char) :
    replace old new (s ++ t) = replace old new s ++ replace old new t :=
  flatMap_append

theorem replace_singleton_of_ne {c old : Char} (new : List Char) (h : c ≠ old) :
    replace old new [c] = [c] := by
  simp [replace, h]

theorem escape_append (s t : List Char) : escape (s ++ t) = escape s ++ escape t := by
  simp only [escape, replace_append]

theorem escape_singleton (c : Char) : escape [c] = escapeChar c := by
  unfold escapeChar
  split_ifs with h1 h2 h3 h4
  · subst h1; decide
  · subst h2; decide
  · subst h3; decide
  · subst h4; decide
  · unfold escape
    rw [replace_singleton_of_ne _ h1, replace_singleton_of_ne _ h2, replace_singleton_of_ne _ h3,
      replace_singleton_of_ne _ h4]

theorem escape_eq (s : List Char) : escape s = s.flatMap escapeChar := by
  induction s with
  | nil => rfl
  | cons c s ih =>
    rw [← singleton_append, escape_append, escape_singleton, ih]
    rfl

theorem escape_of_plain {s : List Char} (h : ∀ c ∈ s, escapeChar c = [c]) : escape s = s := by
  rw [escape_eq]
  induction s with
  | nil => rfl
  | cons c s ih =>
    rw [flatMap_cons, h c (mem_cons_self ..), ih fun c hc => h c (mem_cons_of_mem _ hc)]
    rfl

theorem escapeChar_plain {c : Char} (hc : c ≠ '%' ∧ c ≠ ',' ∧ c ≠ ';' ∧ c ≠ '=') :
    escapeChar c = [c] := by
  obtain ⟨h1, h2, h3, h4⟩ := hc
  simp [escapeChar, h1, h2, h3, h4]

theorem escapeChar_id {c : Char} (hc : isIdStart c = true ∨ ('0' ≤ c ∧ c ≤ '9')) :
    escapeChar c = [c] := by
  refine escapeChar_plain ⟨?_, ?_, ?_, ?_⟩ <;>
  · rintro rfl
    revert hc
    decide

theorem escape_of_isId {s : List Char} (h : isId s = true) : ∀ c ∈ s, escapeChar c = [c] := by
  cases s with
  | nil => exact fun c hc => absurd hc not_mem_nil
  | cons c s =>
    simp only [isId, Bool.and_eq_true, all_eq_true, Bool.or_eq_true, decide_eq_true_eq] at h
    intro d hd
    rcases mem_cons.mp hd with rfl | hd
    · exact escapeChar_id (.inl h.1)
    · exact escapeChar_id (h.2 d hd)

theorem escape_of_matches {s : List Char} (h : idPattern.matches s = true) : escape s = s := by
  refine escape_of_plain ?_
  simp only [Pattern.matches, Bool.or_eq_true, Bool.and_eq_true, decide_eq_true_eq] at h
  rcases h with h | ⟨hlast, h⟩
  · exact escape_of_isId h
  intro c hc
  rw [← dropLast_append_getLast? _ hlast] at hc
  rcases mem_append.mp hc with hc | hc
  · exact escape_of_isId h c hc
  · obtain rfl := mem_singleton.mp hc
    decide

end Escape

namespace Signer

variable {py : Python} {sg : Signer} {data : Dict}

def classIds (py : Python) (sg : Signer) (ids : List (List Char)) : Finset Nat :=
  ids.toFinset.biUnion fun id =>
    if py.lower id = Field.defaultKey then sg.defaultPrivileges
    else (sg.classIdMap (py.lower id)).elim ∅ fun n => {n}

variable {s : List Char} {ids : List (List Char)} {field : Field} {r : Option (List Char)}

theorem checkStr_ok {field str : List Char} {pattern : Pattern}
    (h : checkStr field pattern str = .ok s) : pattern.matches str = true ∧ s = escape str := by
  unfold checkStr at h
  split_ifs at h with hm
  exact ⟨hm, by cases h; rfl⟩

theorem genClassSet_ok {field : List Char} {values S : Finset Nat}
    (h : genClassSet py sg.classIdMap (some sg.defaultPrivileges) field ids values = .ok S) :
    S = values ∪ sg.classIds py ids := by
  induction ids generalizing values with
  | nil =>
    cases h
    simp [classIds]
  | cons id ids ih =>
    unfold genClassSet at h
    split at h
    · cases h
    rename_i classId hcheck
    obtain ⟨hm, rfl⟩ := checkStr_ok hcheck
    rw [escape_of_matches hm] at h
    split_ifs at h with hdefault
    · rw [ih h]
      simp [classIds, hdefault]
    split at h
    · rename_i classNum hnum
      rw [ih h]
      simp [classIds, hdefault, hnum]
    · cases h

variable {classIdMap : List Char → Option Nat}

theorem genClassSet_nonempty {defaultPrivileges : Option (Finset Nat)}
    (hdefault : ∀ d ∈ defaultPrivileges, d.Nonempty) {field : List Char} {values S : Finset Nat}
    (h : genClassSet py classIdMap defaultPrivileges field ids values = .ok S)
    (hne : values.Nonempty ∨ ids ≠ []) : S.Nonempty := by
  induction ids generalizing values with
  | nil =>
    cases h
    exact hne.resolve_right fun h => h rfl
  | cons id ids ih =>
    unfold genClassSet at h
    split at h
    · cases h
    split_ifs at h
    · split at h
      · cases h
      · exact ih h (.inl (.inr (hdefault _ rfl)))
    · split at h
      · exact ih h (.inl (Finset.insert_nonempty _ _))
      · cases h

theorem new_ok (h : new py classIdMap = .ok sg) :
    sg.classIdMap = classIdMap ∧ sg.defaultPrivileges.Nonempty := by
  unfold new at h
  split at h
  · cases h
  · rename_i numbers hset
    cases h
    exact ⟨rfl, genClassSet_nonempty (by simp) hset (.inr (by simp [defaultPrivilegeIds]))⟩

def fieldText (py : Python) (sg : Signer) (data : Dict) (field : Field) : Option (List Char) :=
  match field, data.value field with
  | .privileges, value =>
    if sg.classIds py value.items = ∅ then none else some (encodeIdSet (sg.classIds py value.items))
  | .services, value =>
    if sg.classIds py value.items = ∅ then none else some (encodeIdSet (sg.classIds py value.items))
  | .appName, .str s => some (escape s)
  | .neverUnload, .str s => some s
  | _, _ => none

theorem fieldText_none (h : data.value field = .none) : sg.fieldText py data field = none := by
  unfold fieldText
  rw [h]
  cases field <;> rfl

theorem fieldText_appName (h : data.value .appName = .str s) :
    sg.fieldText py data .appName = some (escape s) := by
  unfold fieldText
  rw [h]

theorem fieldText_neverUnload (h : data.value .neverUnload = .str s) :
    sg.fieldText py data .neverUnload = some s := by
  unfold fieldText
  rw [h]

theorem genClassSetString_ok {field : List Char} (h : sg.genClassSetString py field ids = .ok r) :
    (r = if sg.classIds py ids = ∅ then none else some (encodeIdSet (sg.classIds py ids))) ∧
      (sg.defaultPrivileges.Nonempty → (r = none ↔ ids = [])) := by
  unfold genClassSetString at h
  split at h
  · cases h
  rename_i S hset
  have hS := genClassSet_ok hset
  rw [Finset.empty_union] at hS
  subst hS
  cases h
  refine ⟨by simp only [Finset.card_eq_zero], fun hdefault => ⟨fun hnone => ?_, ?_⟩⟩
  · by_contra hne
    have hsome := genClassSet_nonempty (by simpa using hdefault) hset (.inr hne)
    simp [hsome.ne_empty] at hnone
  · rintro rfl
    rfl

theorem checkBoolean_ok {field : List Char} {value : Value}
    (h : checkBoolean py field value = .ok s) :
    value = .str s ∧ (s = "true".toList ∨ s = "false".toList) := by
  unfold checkBoolean at h
  split_ifs at h with htrue hfalse
  · cases h
    exact ⟨htrue, .inl (by decide)⟩
  · cases h
    exact ⟨hfalse, .inr (by decide)⟩

theorem ne_nil_of_matches (h : namePattern.matches s = true) : s ≠ [] := by
  rintro rfl
  have hempty : namePattern.matches [] = false := rfl
  cases h

theorem of_map_ok {x : Except PyError (List Char)} (h : x.map some = .ok r) :
    ∃ s, x = .ok s ∧ r = some s := by
  cases x with
  | error e => cases h
  | ok s =>
    cases h
    exact ⟨s, rfl, rfl⟩

theorem handle_ok (h : sg.handle py field (data.value field) = .ok r)
    (hsg : sg.defaultPrivileges.Nonempty) :
    r = sg.fieldText py data field ∧ (r = none ↔ (data.value field).items = []) := by
  cases field with
  | privileges | services =>
    obtain ⟨hr, hnone⟩ := genClassSetString_ok h
    exact ⟨hr, hnone hsg⟩
  | appName =>
    cases hv : data.value .appName with
    | none | strs ids => rw [hv] at h; cases h
    | str s =>
      rw [hv] at h
      obtain ⟨t, hcheck, rfl⟩ := of_map_ok h
      obtain ⟨hm, rfl⟩ := checkStr_ok hcheck
      exact ⟨(fieldText_appName hv).symm, by simp [Value.items, ne_nil_of_matches hm]⟩
  | neverUnload =>
    obtain ⟨t, hcheck, rfl⟩ := of_map_ok h
    obtain ⟨hv, ht⟩ := checkBoolean_ok hcheck
    refine ⟨(fieldText_neverUnload hv).symm, ?_⟩
    rw [hv]
    rcases ht with rfl | rfl <;> simp [Value.items]

theorem extractField_ok (h : sg.extractField py data field = .ok r)
    (hsg : sg.defaultPrivileges.Nonempty) :
    r = sg.fieldText py data field ∧ (r = none ↔ (data.value field).items = []) := by
  unfold extractField at h
  split at h
  · rename_i hv
    cases h
    exact ⟨(fieldText_none hv).symm, by simp [hv, Value.items]⟩
  · exact handle_ok h hsg

theorem name_injective : Function.Injective Field.name := by
  intro f g
  cases f <;> cases g <;> decide

theorem abbr_injective : Function.Injective Field.abbr := by
  intro f g
  cases f <;> cases g <;> decide

theorem mem_names_cons {f : Field} (hfield : field ≠ f) (value : Value) (rest : Dict) :
    field.name ∈ ((f.name, value) :: rest).map Prod.fst ↔ field.name ∈ rest.map Prod.fst := by
  have hname : field.name ≠ f.name := fun h => hfield (name_injective h)
  rw [map_cons, mem_cons, or_iff_right hname]

theorem process_ok {rest : Dict} {metadata metadata' : List (Char × List Char)}
    (h : sg.process py data rest metadata = .ok metadata')
    (hsg : sg.defaultPrivileges.Nonempty) (field : Field) :
    (metadata'.lookup field.abbr = (metadata.lookup field.abbr).or
      (if field.name ∈ rest.map Prod.fst then sg.fieldText py data field else none)) ∧
    (field.name ∈ rest.map Prod.fst → ∃ r, sg.extractField py data field = .ok r) := by
  induction rest generalizing metadata with
  | nil =>
    cases h
    simp
  | cons entry rest ih =>
    obtain ⟨name, value⟩ := entry
    unfold process at h
    split at h
    · cases h
    rename_i f hf
    obtain rfl := (by simpa using find?_some hf)
    split at h
    · cases h
    · rename_i hextract
      obtain ⟨hnone, -⟩ := extractField_ok hextract hsg
      obtain ⟨hlookup, hall⟩ := ih h
      by_cases hfield : field = f
      · subst hfield
        exact ⟨by simp [hlookup, ← hnone], fun _ => ⟨_, hextract⟩⟩
      · simp only [mem_names_cons hfield]
        exact ⟨hlookup, hall⟩
    · rename_i s hextract
      obtain ⟨hsome, -⟩ := extractField_ok hextract hsg
      split_ifs at h with hdup
      obtain ⟨hlookup, hall⟩ := ih h
      rw [lookup_append] at hlookup
      by_cases hfield : field = f
      · subst hfield
        have hnone : metadata.lookup field.abbr = none := Option.not_isSome_iff_eq_none.mp hdup
        exact ⟨by simp [hlookup, ← hsome], fun _ => ⟨_, hextract⟩⟩
      · have habbr : (field.abbr == f.abbr) = false := by
          simpa using fun h => hfield (abbr_injective h)
        simp only [mem_names_cons hfield]
        exact ⟨by simpa [lookup_cons, habbr] using hlookup, hall⟩

theorem value_withPrivileges (data : Dict) (field : Field) :
    (withPrivileges data).value field = data.value field := by
  unfold withPrivileges
  split_ifs with hnone
  · unfold Dict.value
    rw [lookup_append]
    by_cases hfield : field = .privileges
    · subst hfield
      simp
    · have hname : (field.name == Field.privileges.name) = false := by
        simpa using fun h => hfield (name_injective h)
      simp [lookup_cons, hname]
  · rfl

theorem value_of_notMem (h : field.name ∉ (withPrivileges data).map Prod.fst) :
    data.value field = .none := by
  have hnone : (withPrivileges data).lookup field.name = none := by
    rw [lookup_eq_none_iff]
    intro entry hentry
    simpa using fun heq => h (mem_map.mpr ⟨entry, hentry, heq.symm⟩)
  have hfield : field ≠ .privileges := by
    rintro rfl
    unfold withPrivileges at hnone
    split_ifs at hnone with hpriv
    · simp [lookup_append] at hnone
    · simp [hnone] at hpriv
  rw [← value_withPrivileges, Dict.value, hnone]
  cases field with
  | privileges => exact absurd rfl hfield
  | services | appName | neverUnload => rfl

theorem fieldText_congr {data data' : Dict} (h : data'.value field = data.value field) :
    sg.fieldText py data' field = sg.fieldText py data field := by
  unfold fieldText
  rw [h]

theorem extractField_congr {data data' : Dict} (h : data'.value field = data.value field) :
    sg.extractField py data' field = sg.extractField py data field := by
  unfold extractField
  rw [h]

theorem generateMetadata_ok {text : List Char} (h : sg.generateMetadata py data = .ok text)
    (hsg : sg.defaultPrivileges.Nonempty) :
    text = render (sg.fieldText py data) ∧ ∀ field, ∃ r, sg.extractField py data field = .ok r := by
  unfold generateMetadata at h
  split at h
  · cases h
  rename_i metadata hprocess
  cases h
  have hextract : ∀ field, ∃ r, sg.extractField py data field = .ok r := by
    intro field
    rw [← extractField_congr (value_withPrivileges data field)]
    by_cases hmem : field.name ∈ (withPrivileges data).map Prod.fst
    · exact (process_ok hprocess hsg field).2 hmem
    · refine ⟨none, ?_⟩
      rw [extractField, value_withPrivileges, value_of_notMem hmem]
  refine ⟨congrArg render (funext fun field => ?_), hextract⟩
  rw [(process_ok hprocess hsg field).1, ← fieldText_congr (value_withPrivileges data field)]
  split_ifs with hmem
  · rfl
  obtain ⟨r, hr⟩ := hextract field
  obtain ⟨rfl, hnone⟩ := extractField_ok hr hsg
  rw [value_of_notMem hmem] at hnone
  rw [fieldText_congr (value_withPrivileges data field)]
  exact (hnone.mpr rfl).symm

theorem fieldText_eq_none_iff {text : List Char} (h : sg.generateMetadata py data = .ok text)
    (hsg : sg.defaultPrivileges.Nonempty) (field : Field) :
    sg.fieldText py data field = none ↔ (data.value field).items = [] := by
  obtain ⟨r, hr⟩ := (generateMetadata_ok h hsg).2 field
  obtain ⟨rfl, hnone⟩ := extractField_ok hr hsg
  exact hnone

end Signer

end MinkIpc.Metadata
