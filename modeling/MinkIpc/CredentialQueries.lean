import MinkIpc.OsIndCredentials
import Mathlib.Tactic.Push

/-! What the two ways to ask for a property agree on: the answer by index
against the answer by the name at that index, the names against the indices,
and the names against what was supplied. -/

namespace MinkIpc.Credentials

open List Option

def Data.Missing (d : Data) : Prop := d = .absent ∨ d = .bytes []

instance (d : Data) : Decidable d.Missing := inferInstanceAs (Decidable (_ ∨ _))

def ProcessCred.lookup (me : ProcessCred) (name : List UInt8) : Data :=
  (processField (strKey name)).elim .absent me.data

def EnvCred.lookup (me : EnvCred) (name : List UInt8) : Data :=
  (envField (strKey name)).elim .absent me.data

def Credential.lookup : Credential → List UInt8 → Data
  | .process me, name => me.lookup name
  | .env me, name => me.lookup name
  | .wrapped procCred none, name => procCred.elim .absent (·.lookup name)
  | .wrapped procCred (some me), name =>
    if (me.lookup name).Missing then procCred.elim .absent (·.lookup name) else me.lookup name

theorem query_missing {d : Data} (h : d.Missing) (valueLen : Nat) :
    query valueLen d = some ⟨some .notFound, [], 0⟩ := by
  rcases h with rfl | rfl <;> rfl

variable {valueLen : Nat} {cred : Credential} {name : List UInt8}

theorem query_found {b : List UInt8} (hb : b ≠ []) (h : b.length ≤ valueLen) :
    query valueLen (.bytes b) = some ⟨none, b, b.length⟩ := by
  rw [query, if_neg hb, if_pos h]

theorem query_short {b : List UInt8} (hb : b ≠ []) (h : ¬ b.length ≤ valueLen) :
    query valueLen (.bytes b) = some ⟨some .valueSize, replicate valueLen 0, 0⟩ := by
  rw [query, if_neg hb, if_neg h]

theorem Data.cases (d : Data) : d.Missing ∨ d = .fault ∨ ∃ b, b ≠ [] ∧ d = .bytes b := by
  cases d with
  | absent => exact .inl (.inl rfl)
  | fault => exact .inr (.inl rfl)
  | bytes b =>
    by_cases hb : b = []
    · exact .inl (.inr (by rw [hb]))
    · exact .inr (.inr ⟨b, hb, rfl⟩)

theorem askProcess_eq (procCred : Option ProcessCred) (name : List UInt8) (valueLen : Nat) :
    askProcess procCred name valueLen = query valueLen (procCred.elim .absent (·.lookup name)) := by
  cases procCred <;> rfl

theorem Credential.getValueByName_eq (cred : Credential) (name : List UInt8) (valueLen : Nat) :
    cred.getValueByName name valueLen = query valueLen (cred.lookup name) := by
  cases cred with
  | process me | env me => rfl
  | wrapped procCred envCred =>
    cases envCred with
    | none => exact askProcess_eq procCred name valueLen
    | some me =>
      change (query valueLen (me.lookup name)).bind _ = query valueLen (if _ then _ else _)
      rcases (me.lookup name).cases with hm | hf | ⟨b, hb, he⟩
      · rw [query_missing hm, if_pos hm]
        exact askProcess_eq procCred name valueLen
      · rw [hf]
        rfl
      · have hm : ¬ (Data.bytes b).Missing := by
          rintro (h | h)
          · cases h
          · exact hb (Data.bytes.inj h)
        rw [he, if_neg hm]
        by_cases hl : b.length ≤ valueLen
        · rw [query_found hb hl]
          rfl
        · rw [query_short hb hl]
          rfl

def Agrees (cred : Credential) (f : Field) (nameLen valueLen : Nat) : Prop :=
  ∃ p q, cred.getPropertyByIndex (allFields.idxOf f) nameLen valueLen = some p ∧
    cred.getValueByName f.keyChars valueLen = some q ∧
    (p.ret = none ↔ f.keyChars.length ≤ nameLen ∧ q.ret = none) ∧
    (p.ret = none → p.value = q.value) ∧
    p.name.length ≤ nameLen ∧ p.value.length ≤ valueLen ∧
    (p.ret = none → p.nameLenOut = some p.name.length ∧ p.valueLenOut = some p.value.length)

/-- No value is there, or one that does not fit the scratch pad, in a buffer of
at least its size, while it does not fit the buffer or its name does not. -/
def AgreesWhen (cred : Credential) (f : Field) (nameLen valueLen : Nat) : Prop :=
  (cred.lookup f.keyChars).Missing ∨
    ∃ b, cred.lookup f.keyChars = .bytes b ∧ scratchPadSize < b.length ∧
      scratchPadSize ≤ valueLen ∧ ¬ (f.keyChars.length ≤ nameLen ∧ b.length ≤ valueLen)

theorem allFields_idxOf (f : Field) : allFields[allFields.idxOf f]? = some f := by
  cases f <;> rfl

theorem getPropertyByIndex_idxOf {f : Field} (hf : f ∈ cred.fields) (nameLen valueLen : Nat) :
    cred.getPropertyByIndex (allFields.idxOf f) nameLen valueLen =
      cred.getProperty f nameLen valueLen := by
  rw [Credential.getPropertyByIndex, allFields_idxOf]
  exact if_pos hf

section Agreement

variable {cred : Credential} {f : Field} {nameLen valueLen : Nat}

theorem agrees_of_missing (hf : f ∈ cred.fields) (h : (cred.lookup f.keyChars).Missing) :
    Agrees cred f nameLen valueLen := by
  refine ⟨⟨some .notFound, replicate nameLen 0, some 0, replicate valueLen 0, some 0⟩,
    ⟨some .notFound, [], 0⟩, ?_, ?_, ?_⟩
  · rw [getPropertyByIndex_idxOf hf, Credential.getProperty, Credential.getValueByName_eq,
      query_missing h]
    simp
  · rw [Credential.getValueByName_eq, query_missing h]
  · simp

theorem not_agrees_of_fault (h : cred.lookup f.keyChars = .fault) :
    ¬ Agrees cred f nameLen valueLen := by
  rintro ⟨p, q, -, hq, -⟩
  rw [Credential.getValueByName_eq, h] at hq
  cases hq

theorem not_agrees_of_fits (hf : f ∈ cred.fields) {b : List UInt8} (hb : b ≠ [])
    (h : cred.lookup f.keyChars = .bytes b) (hl : b.length ≤ scratchPadSize) :
    ¬ Agrees cred f nameLen valueLen := by
  rintro ⟨p, q, hp, -, -, -, -, -, hlen⟩
  rw [getPropertyByIndex_idxOf hf, Credential.getProperty, Credential.getValueByName_eq, h,
    query_found hb hl] at hp
  obtain rfl := Option.some.inj hp
  have hnone := (hlen rfl).1
  cases hnone

theorem agrees_iff_of_long (hf : f ∈ cred.fields) {b : List UInt8}
    (h : cred.lookup f.keyChars = .bytes b) (hl : scratchPadSize < b.length) :
    Agrees cred f nameLen valueLen ↔
      scratchPadSize ≤ valueLen ∧ ¬ (f.keyChars.length ≤ nameLen ∧ b.length ≤ valueLen) := by
  have hb : b ≠ [] := ne_nil_of_length_pos (by omega)
  have hp : cred.getPropertyByIndex (allFields.idxOf f) nameLen valueLen =
      some ⟨some .valueSize, replicate nameLen 0, some 0,
        replicate (max valueLen scratchPadSize) 0, some 0⟩ := by
    rw [getPropertyByIndex_idxOf hf, Credential.getProperty, Credential.getValueByName_eq, h,
      query_short hb (by omega)]
    simp
  have hq : ∃ q, cred.getValueByName f.keyChars valueLen = some q ∧
      (q.ret = none ↔ b.length ≤ valueLen) := by
    rw [Credential.getValueByName_eq, h]
    by_cases hv : b.length ≤ valueLen
    · exact ⟨_, query_found hb hv, by simp [hv]⟩
    · exact ⟨_, query_short hb hv, by simp [hv]⟩
  obtain ⟨q, hq, hret⟩ := hq
  constructor
  · rintro ⟨p, q', hp', hq', hiff, -, -, hlen, -⟩
    obtain rfl := Option.some.inj (hp.symm.trans hp')
    obtain rfl := Option.some.inj (hq.symm.trans hq')
    rw [length_replicate] at hlen
    refine ⟨by omega, fun ⟨hn, hv⟩ => ?_⟩
    have hnone := hiff.mpr ⟨hn, hret.mpr hv⟩
    cases hnone
  · rintro ⟨hpad, hnot⟩
    refine ⟨_, q, hp, hq, ?_, ?_, ?_, ?_, ?_⟩
    · simp only [hret, reduceCtorEq, false_iff]
      exact hnot
    · simp
    · simp
    · simp only [length_replicate]
      omega
    · simp

theorem agrees_iff (hf : f ∈ cred.fields) :
    Agrees cred f nameLen valueLen ↔ AgreesWhen cred f nameLen valueLen := by
  unfold AgreesWhen
  rcases (cred.lookup f.keyChars).cases with hm | hfault | ⟨b, hb, he⟩
  · exact iff_of_true (agrees_of_missing hf hm) (.inl hm)
  · refine iff_of_false (not_agrees_of_fault hfault) ?_
    rw [hfault]
    rintro ((h | h) | ⟨b, h, -⟩) <;> cases h
  · have hm : ¬ (Data.bytes b).Missing := by
      rintro (h | h)
      · cases h
      · exact hb (Data.bytes.inj h)
    rw [he, or_iff_right hm]
    by_cases hl : scratchPadSize < b.length
    · rw [agrees_iff_of_long hf he hl]
      constructor
      · intro h
        exact ⟨b, rfl, hl, h⟩
      · rintro ⟨b', he', -, h⟩
        rwa [Data.bytes.inj he']
    · refine iff_of_false (not_agrees_of_fits hf hb he (by omega)) ?_
      rintro ⟨b', he', hl', -⟩
      rw [Data.bytes.inj he'] at hl
      exact hl hl'

end Agreement

def nameField (name : List UInt8) : Option Field :=
  (envField (strKey name)).or (processField (strKey name))

def Credential.processPart : Credential → Option ProcessCred
  | .process me => some me
  | .env _ => none
  | .wrapped procCred _ => procCred

def Credential.envPart : Credential → Option EnvCred
  | .process _ => none
  | .env me => some me
  | .wrapped _ envCred => envCred

def Indexed (cred : Credential) : Prop :=
  ∀ name f valueLen q, nameField name = some f → cred.getValueByName name valueLen = some q →
    q.ret = none → ∃ g ∈ cred.fields, nameField g.keyChars = some f

def ProcessCred.supplied (me : ProcessCred) : Field → Bool
  | .appName => me.appName.isSome
  | .appHash => me.appHash.isSome
  | .legacyCBOR => me.legacyCBOR.isSome
  | f => f ∈ processFields

def EnvCred.supplied (me : EnvCred) : Field → Bool
  | .osId => me.osId.isSome
  | .vmHash => me.vmHash.isSome
  | f => f ∈ envFields

def Credential.supplied (cred : Credential) (f : Field) : Bool :=
  cred.processPart.any (·.supplied f) || cred.envPart.any (·.supplied f)

def Refuses (cred : Credential) : Prop :=
  ∀ name f valueLen, nameField name = some f → cred.supplied f = false →
    ∃ q e, cred.getValueByName name valueLen = some q ∧ q.ret = some e

section Names

variable {key : Nat} {name : List UInt8} {f : Field}

theorem processField_mem (h : processField key = some f) : f ∈ processFields ∧ f.key = key :=
  ⟨mem_of_find?_eq_some h, by simpa using find?_some h⟩

theorem envField_mem (h : envField key = some f) :
    f ∈ envFields ∧ (key = eVmUUID ∨ f.key = key) := by
  unfold envField at h
  split at h
  · obtain rfl := Option.some.inj h
    exact ⟨by decide, .inl ‹_›⟩
  · exact ⟨mem_of_find?_eq_some h, .inr (by simpa using find?_some h)⟩

theorem keys_disjoint : ∀ g ∈ processFields, g.key ≠ eVmUUID ∧ ∀ f ∈ envFields, f.key ≠ g.key := by
  decide

theorem processField_eq_none (h : envField key = some f) : processField key = none := by
  by_contra hne
  obtain ⟨g, hg⟩ := ne_none_iff_exists'.mp hne
  obtain ⟨hmem, hkey⟩ := processField_mem hg
  obtain ⟨hf, hvm | hk⟩ := envField_mem h
  · exact (keys_disjoint g hmem).1 (hkey.trans hvm)
  · exact (keys_disjoint g hmem).2 f hf (hk.trans hkey.symm)

theorem nameField_of_env (h : envField (strKey name) = some f) : nameField name = some f := by
  rw [nameField, h]
  rfl

theorem nameField_of_process (h : processField (strKey name) = some f) :
    nameField name = some f := by
  cases he : envField (strKey name) with
  | none =>
    rw [nameField, he, h]
    rfl
  | some g =>
    rw [processField_eq_none he] at h
    cases h

theorem nameField_keyChars (g : Field) :
    nameField g.keyChars = if g = .distId then none else some g := by
  cases g <;> decide

theorem distId_name : processField (strKey Field.distId.letters) = some .distId ∧
    envField (strKey Field.distId.letters) = none := by decide

theorem osId_name : envField (strKey Field.osId.letters) = some .osId := by decide

end Names

theorem lookup_ne_missing {q : Query} (hq : cred.getValueByName name valueLen = some q)
    (hret : q.ret = none) :
    ¬ (cred.lookup name).Missing := by
  intro hm
  rw [Credential.getValueByName_eq, query_missing hm] at hq
  obtain rfl := Option.some.inj hq
  cases hret

theorem lookup_distId {me : ProcessCred} (h : cred.processPart = some me) :
    cred.lookup Field.distId.letters = .bytes me.distId.val := by
  have hproc : me.lookup Field.distId.letters = .bytes me.distId.val := by
    rfl
  cases cred with
  | process me' =>
    obtain rfl := Option.some.inj h
    exact hproc
  | env e => cases h
  | wrapped procCred envCred =>
    obtain rfl : procCred = some me := h
    cases envCred with
    | none => exact hproc
    | some e =>
      exact hproc

theorem indexed_iff (cred : Credential) : Indexed cred ↔ cred.processPart = none := by
  constructor
  · intro h
    by_contra hne
    obtain ⟨me, hme⟩ := ne_none_iff_exists'.mp hne
    have hlen : me.distId.val.length = 32 := me.distId.property
    have hq : cred.getValueByName Field.distId.letters 32 =
        some ⟨none, me.distId.val, me.distId.val.length⟩ := by
      rw [Credential.getValueByName_eq, lookup_distId hme,
        query_found (ne_nil_of_length_pos (by omega)) (by omega)]
    obtain ⟨g, -, hg⟩ := h _ _ _ _ (nameField_of_process distId_name.1) hq rfl
    rw [nameField_keyChars] at hg
    split at hg
    · cases hg
    · exact ‹¬ g = .distId› (Option.some.inj hg)
  · intro h name f valueLen q hname hq hret
    have hm := lookup_ne_missing hq hret
    have henv (e : EnvCred) (hme : ¬ (e.lookup name).Missing) : f ∈ envFields := by
      cases he : envField (strKey name) with
      | none =>
        rw [EnvCred.lookup, he] at hme
        exact absurd (.inl rfl) hme
      | some g =>
        obtain rfl := Option.some.inj (hname.symm.trans (nameField_of_env he))
        exact (envField_mem he).1
    have hkey (hf : f ∈ envFields) : nameField f.keyChars = some f := by
      rw [nameField_keyChars, if_neg]
      rintro rfl
      exact absurd hf (by decide)
    cases cred with
    | process me => cases h
    | env e => exact ⟨f, henv e hm, hkey (henv e hm)⟩
    | wrapped procCred envCred =>
      obtain rfl : procCred = none := h
      cases envCred with
      | none => exact absurd (.inl rfl) hm
      | some e =>
        have hme : ¬ (e.lookup name).Missing := by
          intro hme
          rw [Credential.lookup, if_pos hme] at hm
          exact hm (.inl rfl)
        exact ⟨f, mem_append_right _ (henv e hme), hkey (henv e hme)⟩

theorem ProcessCred.lookup_missing {me : ProcessCred} {f : Field} (hname : nameField name = some f)
    (h : me.supplied f = false) : (me.lookup name).Missing := by
  cases hp : processField (strKey name) with
  | none => exact .inl (by rw [ProcessCred.lookup, hp]; rfl)
  | some g =>
    obtain rfl := Option.some.inj (hname.symm.trans (nameField_of_process hp))
    refine .inl ?_
    rw [ProcessCred.lookup]
    cases f <;> simp_all [ProcessCred.supplied, ProcessCred.data, processFields]

theorem EnvCred.lookup_missing {me : EnvCred} {f : Field} (hos : me.osId.isSome)
    (hname : nameField name = some f) (h : me.supplied f = false) :
    (me.lookup name).Missing := by
  cases he : envField (strKey name) with
  | none => exact .inl (by rw [EnvCred.lookup, he]; rfl)
  | some g =>
    obtain rfl := Option.some.inj (hname.symm.trans (nameField_of_env he))
    refine .inl ?_
    rw [EnvCred.lookup]
    cases f <;> simp_all [EnvCred.supplied, EnvCred.data, envFields]

theorem lookup_osId {e : EnvCred} (h : cred.envPart = some e) (hos : e.osId = none) :
    cred.lookup Field.osId.letters = .fault := by
  have henv : e.lookup Field.osId.letters = .fault := by
    change e.osId.elim _ _ = _
    rw [hos]
    rfl
  cases cred with
  | process me => cases h
  | env e' =>
    obtain rfl := Option.some.inj h
    exact henv
  | wrapped procCred envCred =>
    obtain rfl : envCred = some e := h
    have hm : ¬ (e.lookup Field.osId.letters).Missing := by
      rw [henv]
      decide
    rw [Credential.lookup, if_neg hm, henv]

theorem lookup_missing (hos : ∀ e ∈ cred.envPart, e.osId.isSome) {f : Field}
    (hname : nameField name = some f) (h : cred.supplied f = false) :
    (cred.lookup name).Missing := by
  obtain ⟨hproc, henv⟩ := Bool.or_eq_false_iff.mp h
  have hprocCred {procCred : Option ProcessCred} (hp : procCred.any (·.supplied f) = false) :
      (procCred.elim .absent (·.lookup name) : Data).Missing := by
    cases procCred with
    | none => exact .inl rfl
    | some me => exact ProcessCred.lookup_missing hname hp
  cases cred with
  | process me => exact ProcessCred.lookup_missing hname hproc
  | env e => exact EnvCred.lookup_missing (hos e rfl) hname henv
  | wrapped procCred envCred =>
    cases envCred with
    | none => exact hprocCred hproc
    | some e =>
      rw [Credential.lookup, if_pos (EnvCred.lookup_missing (hos e rfl) hname henv)]
      exact hprocCred hproc

theorem refuses_iff (cred : Credential) : Refuses cred ↔ ∀ e ∈ cred.envPart, e.osId.isSome := by
  constructor
  · intro h e he
    have hpart : cred.envPart = some e := he
    rw [isSome_iff_ne_none]
    intro hos
    have hsupplied : cred.supplied .osId = false := by
      have hproc : cred.processPart.any (·.supplied .osId) = false := by
        cases cred.processPart <;> rfl
      rw [Credential.supplied, hproc, hpart]
      change e.osId.isSome = false
      rw [hos]
      rfl
    obtain ⟨q, err, hq, -⟩ := h _ _ 0 (nameField_of_env osId_name) hsupplied
    rw [Credential.getValueByName_eq, lookup_osId hpart hos] at hq
    cases hq
  · intro hos name f valueLen hname h
    refine ⟨⟨some .notFound, [], 0⟩, .notFound, ?_, rfl⟩
    rw [Credential.getValueByName_eq, query_missing (lookup_missing hos hname h)]

/-- Index and name agree on a property if and only if none is there, or one too long for the scratch
pad and for the buffers; all that is found has an index if and only if there is no process part. -/
theorem credential_queries_iff (cred : Credential) :
    (∀ (f : { f // f ∈ cred.fields }) (nameLen valueLen : Nat),
      Agrees cred f nameLen valueLen ↔ AgreesWhen cred f nameLen valueLen) ∧
    (Indexed cred ↔ cred.processPart = none) ∧
    (Refuses cred ↔ ∀ e ∈ cred.envPart, e.osId.isSome) :=
  ⟨fun f _ _ => agrees_iff f.property, indexed_iff cred, refuses_iff cred⟩

/-- Without optional arguments: index 1 writes sixteen bytes to a buffer of two, the distinguished
identifier is not found at its index, and the system of the environment is a fault. -/
theorem credential_queries_disagree : ∃ (me : ProcessCred) (e : EnvCred),
      newProcessCred ⟨fun _ => ⟨List.replicate 20 1, rfl⟩, fun _ => ⟨List.replicate 32 2, rfl⟩, none⟩
        ⟨0, none, none, 0, 0, none, some ⟨[111], by decide⟩, 1, 1⟩ = .ok me ∧
      newEnvCred ⟨fun _ => ⟨List.replicate 20 1, rfl⟩, fun _ => ⟨List.replicate 32 2, rfl⟩, none⟩
        ⟨none, ⟨List.replicate 16 3, rfl⟩, none, some ⟨[111], by decide⟩, 1⟩ = .ok e ∧
      ((Credential.process me).getPropertyByIndex 1 2 2).map
        (fun p => (p.ret, p.name, p.nameLenOut, p.value.length, p.valueLenOut)) =
          some (none, [97, 112], none, 16, none) ∧
      ¬ Agrees (.process me) .appId 2 2 ∧
      ((Credential.process me).getValueByName Field.distId.letters 32).map Query.ret = some none ∧
      ((Credential.process me).getPropertyByIndex 6 4 32).map Property.ret = some (some .notFound) ∧
      (Credential.env e).getValueByName Field.osId.letters 64 = none := by
  refine ⟨_, _, rfl, rfl, by decide, ?_, by decide, by decide, by decide⟩
  rintro ⟨p, q, hp, -, -, -, -, hlen, -⟩
  obtain rfl := Option.some.inj hp
  exact absurd hlen (by decide)

end MinkIpc.Credentials
