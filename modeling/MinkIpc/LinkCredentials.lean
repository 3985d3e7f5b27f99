import MinkIpc.Bytes

/-! The credentials of a link. A composite has the fields of the link and the
credential object that the remote hub has sent; which of the two answers is a
matter of the name that is asked for. -/

namespace MinkIpc.LinkCredentials

inductive CredError
  | notFound
  | valueSize
  | sizeIn
  | other (code : Int32)
  deriving DecidableEq, Repr

abbrev Answer := Except CredError (List UInt8)

abbrev Credential := List UInt8 → Nat → Answer

-- "eloc", "link", "lloc", "ltype", "lvmuuid" and "callerId"
def eloc : List UInt8 := [101, 108, 111, 99]
def link : List UInt8 := [108, 105, 110, 107]
def lloc : List UInt8 := [108, 108, 111, 99]
def ltype : List UInt8 := [108, 116, 121, 112, 101]
def lvmuuid : List UInt8 := [108, 118, 109, 117, 117, 105, 100]
def callerId : List UInt8 := [99, 97, 108, 108, 101, 114, 73, 100]

def elocLocal : Int32 := 0
def elocRemote : Int32 := 1
def unix : Int32 := 0
def vmuuidMaxSize : Nat := 16

structure LinkCredRemote where
  lloc : Int32
  ltype : Int32
  lvmuuid : List UInt8
  notLocal : lloc ≠ elocLocal
  notUnix : ltype ≠ unix
  size : lvmuuid ≠ [] ∧ lvmuuid.length ≤ vmuuidMaxSize

def LinkCredRemote.new (vmuuid : List UInt8) (lloc ltype : Int32) : Option LinkCredRemote :=
  if hs : vmuuid ≠ [] ∧ vmuuid.length ≤ vmuuidMaxSize then
    if hl : lloc = elocLocal ∨ ltype = unix then none
    else some ⟨lloc, ltype, vmuuid, fun h => hl (.inl h), fun h => hl (.inr h), hs⟩
  else none

def word (v : Int32) : List UInt8 := Bytes.le 4 v.toUInt32.toNat

def sized (value : List UInt8) (valueLen : Nat) : Answer :=
  if valueLen = value.length then .ok value else .error .valueSize

def hubAnswer (hubCred : Option Credential) (name : List UInt8) (valueLen : Nat) : Answer :=
  match hubCred with
  | some hub => hub name valueLen
  | none => .error .notFound

/-- `LinkCredLegacy_getValueByName`. `enclosing` is the object found where a
composite has its hub credential, and `pid` the bytes found where a local link
has the process. -/
def legacyGetValueByName (me : LinkCredRemote) (pid : List UInt8) (enclosing : Option Credential)
    (name : List UInt8) (valueLen : Nat) : Answer :=
  if name = eloc then sized (word me.lloc) valueLen
  else if name = link then sized (word me.ltype) valueLen
  else if name = callerId then
    if me.lloc = elocLocal ∧ valueLen = pid.length then .ok pid
    else if me.lloc = elocRemote then
      -- `sizeof("callerId")` counts the terminator
      hubAnswer enclosing (callerId ++ [0]) valueLen
    else .error .valueSize
  else .error .notFound

def queryLocAndType (me : LinkCredRemote) (name : List UInt8) (valueLen : Nat) : Answer :=
  if name = lloc then sized (word me.lloc) valueLen
  else if name = ltype then sized (word me.ltype) valueLen
  else .error .notFound

def isSettled : Answer → Bool
  | .ok _ => true
  | .error e => e == .valueSize

def orElse (a b : Answer) : Answer := if isSettled a then a else b

def LinkCredRemote.pidBytes (me : LinkCredRemote) : List UInt8 :=
  (me.lvmuuid ++ List.replicate vmuuidMaxSize 0).take 4

/-- A link credential of its own; `beyond` is the object found behind it. -/
def LinkCredRemote.getValueByName (me : LinkCredRemote) (beyond : Option Credential)
    (name : List UInt8) (valueLen : Nat) : Answer :=
  orElse (legacyGetValueByName me me.pidBytes beyond name valueLen) <|
    orElse (queryLocAndType me name valueLen) <|
      if name = LinkCredentials.lvmuuid then
        if me.lvmuuid.length ≠ 0 ∧ me.lvmuuid.length ≤ valueLen then .ok me.lvmuuid
        else .error .valueSize
      else .error .notFound

structure LinkCredComposite where
  lCredRemote : LinkCredRemote
  hubCred : Option Credential

def LinkCredComposite.getValueByName (me : LinkCredComposite) (name : List UInt8)
    (valueLen : Nat) : Answer :=
  orElse (legacyGetValueByName me.lCredRemote me.lCredRemote.pidBytes me.hubCred name valueLen) <|
    orElse (queryLocAndType me.lCredRemote name valueLen) <|
      if name = LinkCredentials.lvmuuid then
        if me.lCredRemote.lvmuuid.length ≠ 0 ∧ me.lCredRemote.lvmuuid.length ≤ valueLen then
          .ok me.lCredRemote.lvmuuid
        else .error .sizeIn
      else hubAnswer me.hubCred name valueLen

def linkNames : List (List UInt8) := [eloc, link, lloc, ltype, lvmuuid]

def linkAnswer (me : LinkCredRemote) (name : List UInt8) (valueLen : Nat) : Answer :=
  if name = lvmuuid then
    if me.lvmuuid.length ≤ valueLen then .ok me.lvmuuid else .error .sizeIn
  else if name = eloc ∨ name = lloc then sized (word me.lloc) valueLen
  else sized (word me.ltype) valueLen

def Composes (me : LinkCredComposite) (name : List UInt8) (valueLen : Nat) : Prop :=
  (name ∈ linkNames → me.getValueByName name valueLen = linkAnswer me.lCredRemote name valueLen) ∧
    (name ∉ linkNames → me.getValueByName name valueLen = hubAnswer me.hubCred name valueLen)

def OwnFieldsOnly (me : LinkCredRemote) (name : List UInt8) (valueLen : Nat) : Prop :=
  ∀ beyond beyond' : Option Credential,
    me.getValueByName beyond name valueLen = me.getValueByName beyond' name valueLen

def HubAgrees (me : LinkCredComposite) (valueLen : Nat) : Prop :=
  if me.lCredRemote.lloc = elocRemote then
    ∀ hub ∈ me.hubCred, isSettled (hub (callerId ++ [0]) valueLen) →
      hub (callerId ++ [0]) valueLen = hub callerId valueLen
  else hubAnswer me.hubCred callerId valueLen = .error .valueSize

theorem sized_settled (value : List UInt8) (valueLen : Nat) : isSettled (sized value valueLen) := by
  unfold sized
  split <;> rfl

theorem orElse_of_settled {a : Answer} (h : isSettled a) (b : Answer) : orElse a b = a := if_pos h

theorem orElse_notFound (b : Answer) : orElse (.error .notFound) b = b := rfl

section Names

variable (me : LinkCredRemote) (pid : List UInt8) (enclosing : Option Credential) (valueLen : Nat)

theorem legacy_eloc :
    legacyGetValueByName me pid enclosing eloc valueLen = sized (word me.lloc) valueLen := rfl

theorem legacy_link :
    legacyGetValueByName me pid enclosing link valueLen = sized (word me.ltype) valueLen := rfl

theorem legacy_other {name : List UInt8} (h₁ : name ≠ eloc) (h₂ : name ≠ link)
    (h₃ : name ≠ callerId) :
    legacyGetValueByName me pid enclosing name valueLen = .error .notFound := by
  rw [legacyGetValueByName, if_neg h₁, if_neg h₂, if_neg h₃]

theorem legacy_callerId : legacyGetValueByName me pid enclosing callerId valueLen =
      if me.lloc = elocRemote then hubAnswer enclosing (callerId ++ [0]) valueLen
      else .error .valueSize := by
  have h : ¬ (me.lloc = elocLocal ∧ valueLen = pid.length) := fun h => me.notLocal h.1
  rw [legacyGetValueByName, if_neg (by decide), if_neg (by decide), if_pos rfl, if_neg h]

theorem query_other {name : List UInt8} (h₁ : name ≠ lloc) (h₂ : name ≠ ltype) :
    queryLocAndType me name valueLen = .error .notFound := by
  rw [queryLocAndType, if_neg h₁, if_neg h₂]

end Names

theorem composite_other {me : LinkCredComposite} {name : List UInt8} {valueLen : Nat}
    (h : name ∉ linkNames) (hc : name ≠ callerId) :
    me.getValueByName name valueLen = hubAnswer me.hubCred name valueLen := by
  simp only [linkNames, List.mem_cons, List.not_mem_nil, or_false, not_or] at h
  obtain ⟨h₁, h₂, h₃, h₄, h₅⟩ := h
  rw [LinkCredComposite.getValueByName, legacy_other _ _ _ _ h₁ h₂ hc, orElse_notFound,
    query_other _ _ h₃ h₄, orElse_notFound, if_neg h₅]

theorem composite_link {me : LinkCredComposite} {name : List UInt8} {valueLen : Nat}
    (h : name ∈ linkNames) :
    me.getValueByName name valueLen = linkAnswer me.lCredRemote name valueLen := by
  have hsized (v : Int32) (b : Answer) : orElse (sized (word v) valueLen) b = sized (word v) valueLen :=
    orElse_of_settled (sized_settled _ _) b
  have hsize : me.lCredRemote.lvmuuid.length ≠ 0 := by
    have := me.lCredRemote.size.1
    simpa using this
  simp only [linkNames, List.mem_cons, List.not_mem_nil, or_false] at h
  unfold LinkCredComposite.getValueByName
  rcases h with rfl | rfl | rfl | rfl | rfl
  · rw [legacy_eloc, hsized]
    rfl
  · rw [legacy_link, hsized]
    rfl
  · exact hsized _ _
  · exact hsized _ _
  · rw [legacy_other _ _ _ _ (by decide) (by decide) (by decide), orElse_notFound,
      query_other _ _ (by decide) (by decide), orElse_notFound, if_pos rfl, linkAnswer, if_pos rfl]
    simp only [hsize, ne_eq, not_false_eq_true, true_and]

theorem callerId_ne_lvmuuid : callerId ≠ lvmuuid := by decide

theorem composite_callerId (me : LinkCredComposite) (valueLen : Nat) :
    me.getValueByName callerId valueLen =
      if me.lCredRemote.lloc = elocRemote then
        orElse (hubAnswer me.hubCred (callerId ++ [0]) valueLen)
          (hubAnswer me.hubCred callerId valueLen)
      else .error .valueSize := by
  rw [LinkCredComposite.getValueByName, legacy_callerId]
  split <;> rfl

theorem composes_callerId_iff (me : LinkCredComposite) (valueLen : Nat) :
    Composes me callerId valueLen ↔ HubAgrees me valueLen := by
  have hnot : callerId ∉ linkNames := by decide
  unfold Composes HubAgrees
  rw [composite_callerId]
  by_cases hl : me.lCredRemote.lloc = elocRemote
  · rw [if_pos hl, if_pos hl]
    constructor
    · intro h hub hhub hset
      have he := h.2 hnot
      have hh : me.hubCred = some hub := hhub
      rw [hh] at he
      exact (orElse_of_settled hset _).symm.trans he
    · intro h
      refine ⟨fun hm => absurd hm hnot, fun _ => ?_⟩
      cases hh : me.hubCred with
      | none => rfl
      | some hub =>
        change orElse (hub (callerId ++ [0]) valueLen) (hub callerId valueLen) = hub callerId valueLen
        by_cases hset : isSettled (hub (callerId ++ [0]) valueLen)
        · rw [orElse_of_settled hset]
          exact h hub hh hset
        · exact if_neg hset
  · rw [if_neg hl, if_neg hl]
    exact ⟨fun h => (h.2 hnot).symm, fun h => ⟨fun hm => absurd hm hnot, fun _ => h.symm⟩⟩

theorem composes_iff (me : LinkCredComposite) (name : List UInt8) (valueLen : Nat) :
    Composes me name valueLen ↔ name ≠ callerId ∨ HubAgrees me valueLen := by
  by_cases hc : name = callerId
  · subst hc
    rw [composes_callerId_iff]
    simp
  · exact iff_of_true ⟨composite_link, fun h => composite_other h hc⟩ (.inl hc)

theorem ownFieldsOnly_iff (me : LinkCredRemote) (name : List UInt8) (valueLen : Nat) :
    OwnFieldsOnly me name valueLen ↔ name ≠ callerId ∨ me.lloc ≠ elocRemote := by
  by_cases hc : name = callerId
  · subst hc
    have hget (beyond : Option Credential) : me.getValueByName beyond callerId valueLen =
        orElse (if me.lloc = elocRemote then hubAnswer beyond (callerId ++ [0]) valueLen
          else .error .valueSize) (.error .notFound) := by
      rw [LinkCredRemote.getValueByName, legacy_callerId, query_other _ _ (by decide) (by decide),
        orElse_notFound, if_neg callerId_ne_lvmuuid]
    unfold OwnFieldsOnly
    simp only [hget, ne_eq, not_true, false_or]
    by_cases hl : me.lloc = elocRemote
    · refine iff_of_false (fun h => ?_) (fun h => h hl)
      have he := h none (some fun _ _ => .ok [])
      simp only [hl] at he
      cases he
    · simp [hl]
  · refine iff_of_true (fun beyond beyond' => ?_) (.inl hc)
    have hlegacy : legacyGetValueByName me me.pidBytes beyond name valueLen =
        legacyGetValueByName me me.pidBytes beyond' name valueLen := by
      simp only [legacyGetValueByName, hc, if_false]
    rw [LinkCredRemote.getValueByName, hlegacy]
    rfl

/-- A composite answers as it should, and a link credential of its own from its fields only, for
every name but that of the caller. -/
theorem link_credentials_iff (me : LinkCredComposite) (own : LinkCredRemote) (name : List UInt8)
    (valueLen : Nat) :
    (Composes me name valueLen ↔ name ≠ callerId ∨ HubAgrees me valueLen) ∧
      (OwnFieldsOnly own name valueLen ↔ name ≠ callerId ∨ own.lloc ≠ elocRemote) :=
  ⟨composes_iff me name valueLen, ownFieldsOnly_iff own name valueLen⟩

/-- The hub knows the caller under the name asked for; with the terminator it answers something
else. A credential of its own reads the object behind it. -/
theorem callerId_misanswered : ∃ own, LinkCredRemote.new [7] elocRemote 1 = some own ∧
      LinkCredComposite.getValueByName
          ⟨own, some fun name _ => if name = callerId then .ok [1] else .ok [2]⟩ callerId 4 =
        .ok [2] ∧
      ¬ Composes ⟨own, some fun name _ => if name = callerId then .ok [1] else .ok [2]⟩ callerId 4 ∧
      own.getValueByName (some fun _ _ => .ok [3]) callerId 4 = .ok [3] ∧
      own.getValueByName none callerId 4 = .error .notFound := by
  refine ⟨_, rfl, rfl, ?_, rfl, rfl⟩
  intro h
  have he := h.2 (by decide)
  have hne : (Except.ok [2] : Answer) = .ok [1] := he
  cases hne

end MinkIpc.LinkCredentials
