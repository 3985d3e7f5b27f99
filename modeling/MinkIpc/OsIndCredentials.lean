import MinkIpc.Bytes

/-! Credentials of a process and of its environment, and the two of them
wrapped into one. A property is asked for by its name, a key of up to four
letters, or by its index. -/

namespace MinkIpc.Credentials

inductive CredError
  | notFound
  | valueSize
  | error
  deriving DecidableEq, Repr

inductive Field
  | appName | appId | appHash | appDebug | appVersion | legacyCBOR | distId | distName | domain
  | uid | pid | securityLvl | permissions
  | osId | vmUUID | vmDID | vmHash | vmDomain | vmDistUUID | vmVersion
  deriving DecidableEq, Repr

def processFields : List Field :=
  [.appName, .appId, .appHash, .appDebug, .appVersion, .legacyCBOR, .distId, .distName, .domain,
    .uid, .pid, .securityLvl, .permissions]

def envFields : List Field :=
  [.osId, .vmUUID, .vmDID, .vmHash, .vmDomain, .vmDistUUID, .vmVersion]

def Field.letters : Field → List UInt8
  | .appName => [110]                      -- n
  | .appId => [97, 112, 105, 100]          -- apid
  | .appHash => [97, 104, 115, 104]        -- ahsh
  | .appDebug => [97, 100, 98, 103]        -- adbg
  | .appVersion => [97, 118, 101, 114]     -- aver
  | .legacyCBOR => [99, 99, 114, 100]      -- ccrd
  | .distId => [100, 105, 100]             -- did
  | .distName => [100, 110]                -- dn
  | .domain => [100, 109, 110]             -- dmn
  | .uid => [117, 105, 100]                -- uid
  | .pid => [112, 105, 100]                -- pid
  | .securityLvl => [115, 101, 99, 108]    -- secl
  | .permissions => [112, 101, 114, 109]   -- perm
  | .osId => [111, 115]                    -- os
  | .vmUUID => [101, 105, 100]             -- eid
  | .vmDID => [101, 100, 105, 100]         -- edid
  | .vmHash => [101, 104, 115, 104]        -- ehsh
  | .vmDomain => [101, 100, 109, 110]      -- edmn
  | .vmDistUUID => [101, 100, 110]         -- edn
  | .vmVersion => [101, 118, 101, 114]     -- ever

def Field.keyChars : Field → List UInt8
  | .distId => [99, 100, 105, 100]         -- cdid
  | f => f.letters

-- each letter is shifted into a 32-bit value, up to a terminator
def strKey (name : List UInt8) : Nat :=
  if name = [] ∨ 4 < name.length then 0
  else (name.takeWhile (· ≠ 0)).foldl (fun key b => (key * 256 + b.toNat) % 2 ^ 32) 0

def Field.key (f : Field) : Nat := strKey f.letters

-- "vm", a second key of the identity of the environment
def eVmUUID : Nat := strKey [118, 109]

def processField (key : Nat) : Option Field := processFields.find? fun f => f.key == key

def envField (key : Nat) : Option Field :=
  if key = eVmUUID then some .vmUUID else envFields.find? fun f => f.key == key

abbrev Text := { s : List UInt8 // 0 ∉ s }

abbrev Block (n : Nat) := { b : List UInt8 // b.length = n }

/-- The members of a `ProcessCred`; `none` is a member whose flag is not set. -/
structure ProcessCred where
  appName : Option Text
  appId : Block 16
  appHash : Option (Block 32)
  appDebug : UInt32
  appVersion : UInt32
  legacyCBOR : Option (List UInt8)
  distId : Block 32
  distName : Text
  domain : Text
  uid : Block 16
  pid : Block 16
  securityLvl : UInt32
  permissions : UInt64

/-- The members of an `EnvCred`. The flag of `osId` is set in any case: `none`
there is a null pointer. -/
structure EnvCred where
  osId : Option Text
  vmUUID : Block 16
  vmDID : Block 32
  vmHash : Option (Block 32)
  vmDomain : Text
  vmDistUUID : Text
  vmVersion : UInt32

/-- What the `switch` over the keys leaves in `data` and `data_size`: nothing,
the bytes of a property, or the call of `strlen` on a null pointer. -/
inductive Data
  | absent
  | bytes (d : List UInt8)
  | fault
  deriving DecidableEq, Repr

def Text.data (s : Text) : Data := .bytes (s.val ++ [0])

def word32 (v : UInt32) : Data := .bytes (Bytes.le 4 v.toNat)

def ProcessCred.data (me : ProcessCred) : Field → Data
  | .appName => me.appName.elim .absent Text.data
  | .appId => .bytes me.appId.val
  | .appHash => me.appHash.elim .absent (.bytes ·.val)
  | .appDebug => word32 me.appDebug
  | .appVersion => word32 me.appVersion
  | .legacyCBOR => me.legacyCBOR.elim .absent .bytes
  | .distId => .bytes me.distId.val
  | .distName => Text.data me.distName
  | .domain => Text.data me.domain
  | .uid => .bytes me.uid.val
  | .pid => .bytes me.pid.val
  | .securityLvl => word32 me.securityLvl
  | .permissions => .bytes (Bytes.le 8 me.permissions.toNat)
  | _ => .absent

def EnvCred.data (me : EnvCred) : Field → Data
  | .osId => me.osId.elim .fault Text.data
  | .vmUUID => .bytes me.vmUUID.val
  | .vmDID => .bytes me.vmDID.val
  | .vmHash => me.vmHash.elim .absent (.bytes ·.val)
  | .vmDomain => Text.data me.vmDomain
  | .vmDistUUID => Text.data me.vmDistUUID
  | .vmVersion => word32 me.vmVersion
  | _ => .absent

/-- The answer to a name: the error if any, the bytes written to the start of the value buffer, and
the length reported. -/
structure Query where
  ret : Option CredError
  value : List UInt8
  valueLenOut : Nat
  deriving DecidableEq, Repr

def query (valueLen : Nat) : Data → Option Query
  | .fault => none
  | .absent => some ⟨some .notFound, [], 0⟩
  | .bytes d =>
    if d = [] then some ⟨some .notFound, [], 0⟩
    else if d.length ≤ valueLen then some ⟨none, d, d.length⟩
    -- what was copied is zeroed, up to the end of the buffer
    else some ⟨some .valueSize, List.replicate valueLen 0, 0⟩

def ProcessCred.getValueByName (me : ProcessCred) (name : List UInt8) (valueLen : Nat) :
    Option Query :=
  query valueLen ((processField (strKey name)).elim .absent me.data)

def EnvCred.getValueByName (me : EnvCred) (name : List UInt8) (valueLen : Nat) : Option Query :=
  query valueLen ((envField (strKey name)).elim .absent me.data)

/-- The two of them, or `OSIndCredentials`, a part of which may be a null
object. -/
inductive Credential
  | process (me : ProcessCred)
  | env (me : EnvCred)
  | wrapped (procCred : Option ProcessCred) (envCred : Option EnvCred)

def askProcess (procCred : Option ProcessCred) (name : List UInt8) (valueLen : Nat) :
    Option Query :=
  match procCred with
  | some me => me.getValueByName name valueLen
  | none => some ⟨some .notFound, [], 0⟩

def Credential.getValueByName : Credential → List UInt8 → Nat → Option Query
  | .process me, name, valueLen => me.getValueByName name valueLen
  | .env me, name, valueLen => me.getValueByName name valueLen
  | .wrapped procCred none, name, valueLen => askProcess procCred name valueLen
  | .wrapped procCred (some me), name, valueLen =>
    (me.getValueByName name valueLen).bind fun q =>
      if q.ret = some .notFound then askProcess procCred name valueLen else some q

def scratchPadSize : Nat := 64

/-- The answer to an index: the bytes written to the two buffers, and the
lengths reported, `none` where nothing is stored. -/
structure Property where
  ret : Option CredError
  name : List UInt8
  nameLenOut : Option Nat
  value : List UInt8
  valueLenOut : Option Nat
  deriving DecidableEq, Repr

def Credential.fields : Credential → List Field
  | .process _ => processFields
  | .env _ => envFields
  | .wrapped _ _ => processFields ++ envFields

/-- `getPropertyByIndex` at the index of `f`. The value is looked up with the
size of the scratch pad in the place of `valueLen`. -/
def Credential.getProperty (cred : Credential) (f : Field) (nameLen valueLen : Nat) :
    Option Property :=
  (cred.getValueByName f.keyChars scratchPadSize).map fun q =>
    if q.ret.isSome then
      { ret := q.ret
        name := List.replicate nameLen 0
        nameLenOut := some 0
        value := List.replicate (max valueLen q.value.length) 0
        valueLenOut := some 0 }
    else
      { ret := none
        name := f.keyChars.take nameLen
        nameLenOut := none
        value := q.value
        valueLenOut := none }

def allFields : List Field := processFields ++ envFields

def Credential.getPropertyByIndex (cred : Credential) (index nameLen valueLen : Nat) :
    Option Property :=
  match allFields[index]? with
  | some f =>
    if f ∈ cred.fields then cred.getProperty f nameLen valueLen
    else some ⟨some .notFound, List.replicate nameLen 0, some 0, List.replicate valueLen 0, some 0⟩
  | none =>
    some ⟨some .notFound, List.replicate nameLen 0, some 0, List.replicate valueLen 0, some 0⟩

section Construction

/-- The hash functions, and the credentials in the older encoding for a user,
where the build has them. -/
structure Host where
  sha1 : List UInt8 → Block 20
  sha256 : List UInt8 → Block 32
  generateCBOR : Option (UInt32 → Option (Block 32))

def decimal (v : Nat) : List UInt8 := (Nat.toDigits 10 v).map fun c => UInt8.ofNat c.toNat

def signedText (v : UInt32) : List UInt8 :=
  if v.toNat < 2 ^ 31 then decimal v.toNat else 45 :: decimal (2 ^ 32 - v.toNat)

-- the buffers have room for ten characters and the terminator, the length is that of the text
def printed (text : List UInt8) : List UInt8 := (text.take 10 ++ [0]).take text.length

def appUUIDNamespace : List UInt8 :=
  Bytes.le 4 0x119eb897 ++ Bytes.le 2 0x88a3 ++ Bytes.le 2 0x4f79 ++
    [0x85, 0xe5, 0x1c, 0x44, 0x0f, 0x97, 0x7e, 0xd8]

def processIDNamespace : List UInt8 :=
  Bytes.le 4 0xa061e17a ++ Bytes.le 2 0x91e7 ++ Bytes.le 2 0x47f5 ++
    [0xa9, 0x90, 0x96, 0x10, 0xcf, 0x43, 0x70, 0xf6]

def userIdNamespace : List UInt8 :=
  Bytes.le 4 0x800a8065 ++ Bytes.le 2 0xe93d ++ Bytes.le 2 0x45c1 ++
    [0x8b, 0xe0, 0xf2, 0xac, 0x76, 0x79, 0xc0, 0xa0]

def generateUuid (host : Host) (ns name : List UInt8) : Block 16 :=
  let hash := (host.sha1 (ns ++ name)).val.take 16
  ⟨(hash.modify 6 fun b => b &&& 0x0f ||| 0x50).modify 8 fun b => b &&& 0x1f ||| 0x80, by
    rw [List.length_modify, List.length_modify, List.length_take, (host.sha1 _).property]
    rfl⟩

def hexDigit (n : Nat) : UInt8 := UInt8.ofNat (if n < 10 then 48 + n else 55 + n)

def binToHex (b : List UInt8) : List UInt8 :=
  b.flatMap fun v => [hexDigit (v.toNat / 16), hexDigit (v.toNat % 16)]

theorem hexDigit_ne_zero {n : Nat} (h : n < 16) : hexDigit n ≠ 0 := by
  intro he
  have hn := congrArg UInt8.toNat he
  rw [hexDigit, UInt8.toNat_ofNat'] at hn
  simp only [UInt8.toNat_zero] at hn
  split at hn <;> omega

def distinguishedName (domain : Text) (uuid : Block 16) : Text :=
  ⟨domain.val ++ 46 :: binToHex uuid.val, by
    have hdomain := domain.property
    simp only [List.mem_append, List.mem_cons, binToHex, List.mem_flatMap, not_or]
    refine ⟨hdomain, by decide, ?_⟩
    rintro ⟨v, -, h⟩
    have hv := v.toNat_lt
    simp only [List.not_mem_nil, or_false] at h
    rcases h with h | h
    · exact hexDigit_ne_zero (by omega) h.symm
    · exact hexDigit_ne_zero (by omega) h.symm⟩

structure ProcessArgs where
  permissions : UInt64
  appName : Option Text
  appHash : Option (Block 32)
  appDebug : UInt32
  appVersion : UInt32
  legacyCBOR : Option (List UInt8)
  domain : Option Text
  pid : UInt32
  uid : UInt32

def cborImportMaxLen : Nat := 12288

def processCBOR (host : Host) (args : ProcessArgs) : Except CredError (Option (List UInt8)) :=
  match args.legacyCBOR, host.generateCBOR with
  | some cbor, _ => if cbor.length ≤ cborImportMaxLen then .ok (some cbor) else .error .error
  | none, none => .ok none
  | none, some generate =>
    match generate args.uid with
    | some cbor => .ok (some cbor.val)
    | none => .error .error

def newProcessCred (host : Host) (args : ProcessArgs) : Except CredError ProcessCred :=
  match processCBOR host args, args.domain with
  | .error e, _ => .error e
  | .ok _, none => .error .error
  | .ok cbor, some domain =>
    let uidName := printed (decimal (args.uid.toNat % 100000))
    let appId := generateUuid host appUUIDNamespace uidName
    let distName := distinguishedName domain appId
    .ok
      { appName := args.appName
        appId := appId
        appHash := args.appHash
        appDebug := args.appDebug
        appVersion := args.appVersion
        legacyCBOR := cbor
        distId := host.sha256 distName.val
        distName := distName
        domain := domain
        uid := generateUuid host userIdNamespace uidName
        pid := generateUuid host processIDNamespace (printed (signedText args.pid))
        securityLvl := 2
        permissions := args.permissions }

structure EnvArgs where
  osID : Option Text
  vmUUID : Block 16
  vmHash : Option (Block 32)
  vmDomain : Option Text
  vmVersion : UInt32

def newEnvCred (host : Host) (args : EnvArgs) : Except CredError EnvCred :=
  match args.vmDomain with
  | none => .error .notFound
  | some vmDomain =>
    let vmDistUUID := distinguishedName vmDomain args.vmUUID
    .ok
      { osId := args.osID
        vmUUID := args.vmUUID
        vmDID := host.sha256 vmDistUUID.val
        vmHash := args.vmHash
        vmDomain := vmDomain
        vmDistUUID := vmDistUUID
        vmVersion := args.vmVersion }

end Construction

end MinkIpc.Credentials
