import MinkIpc.MetadataText
import MinkIpc.MetadataInfo

/-! What the signing script writes and what the loader stores of it. -/

namespace MinkIpc.Metadata

open List

section Characters

variable {py : Python}

theorem bytes_append (s t : List Char) : py.bytes (s ++ t) = py.bytes s ++ py.bytes t :=
  flatMap_append

theorem bytes_cons (c : Char) (s : List Char) : py.bytes (c :: s) = py.encode c ++ py.bytes s :=
  flatMap_cons

theorem bytes_plain {s : List Char} (h : ∀ c ∈ s, c.toNat < 128) : py.bytes s = plainBytes s := by
  induction s with
  | nil => rfl
  | cons c s ih =>
    rw [bytes_cons, py.encode_ascii c (h c (mem_cons_self ..)),
      ih fun c hc => h c (mem_cons_of_mem _ hc)]
    rfl

theorem bytes_ascii {s : List Char} (h : s.all (·.toNat < 128) = true) :
    py.bytes s = plainBytes s :=
  bytes_plain fun c hc => of_decide_eq_true (all_eq_true.mp h c hc)

theorem eq_of_mem_encode {c : Char} {b : UInt8} (h : b ∈ py.encode c) (hb : b < 128) :
    c.toNat = b.toNat := by
  by_cases hc : c.toNat < 128
  · rw [py.encode_ascii c hc, mem_singleton] at h
    rw [h, UInt8.toNat_ofNat_of_lt' (show c.toNat < 2 ^ 8 by omega)]
  · have := py.encode_other c (by omega) b h
    exact absurd hb (UInt8.not_lt.mpr this)

theorem char_of_toNat {c d : Char} (h : c.toNat = d.toNat) : c = d := by
  rw [← Char.ofNat_toNat c, h, Char.ofNat_toNat]

theorem mem_encode {c : Char} {b : UInt8} (d : Char) (hb : b < 128) (hd : d.toNat = b.toNat)
    (h : b ∈ py.encode c) : c = d :=
  char_of_toNat ((eq_of_mem_encode h hb).trans hd.symm)

theorem unescape_escapeChar (c : Char) (rest : List UInt8) :
    unescape (py.bytes (escapeChar c) ++ rest) = py.encode c ++ unescape rest := by
  by_cases hc : c = '%' ∨ c = ',' ∨ c = ';' ∨ c = '='
  · rcases hc with rfl | rfl | rfl | rfl
    all_goals
      rw [py.encode_ascii _ (by decide), bytes_ascii (by decide)]
      rfl
  · push Not at hc
    rw [escapeChar_plain hc]
    rw [bytes_cons, show py.bytes [] = [] from rfl, append_nil]
    refine unescape_append (fun b hb heq => hc.1 ?_) rest
    subst heq
    exact mem_encode '%' (by decide) rfl hb

theorem unescape_escape (s : List Char) : unescape (py.bytes (escape s)) = py.bytes s := by
  rw [escape_eq]
  induction s with
  | nil => rfl
  | cons c s ih =>
    rw [flatMap_cons, bytes_append, unescape_escapeChar, ih]
    rfl

theorem escapeChar_noSemicolon (c : Char) : ';' ∉ escapeChar c := by
  unfold escapeChar
  split_ifs with h1 h2 h3 h4
  · decide
  · decide
  · decide
  · decide
  · simpa using fun h => h3 h.symm

theorem bytes_noSemicolon {s : List Char} (h : ';' ∉ s) : ∀ b ∈ py.bytes s, b ≠ 59 := by
  rintro b hb rfl
  obtain ⟨c, hc, hb⟩ := mem_flatMap.mp hb
  exact h (mem_encode ';' (by decide) rfl hb ▸ hc)

theorem escape_noSemicolon (s : List Char) : ';' ∉ escape s := by
  rw [escape_eq]
  intro h
  obtain ⟨c, -, hc⟩ := mem_flatMap.mp h
  exact escapeChar_noSemicolon c hc

end Characters

section Digits

def IdChar (c : Char) : Prop := c = ',' ∨ c = ':' ∨ ∃ d < 16, c = Nat.digitChar d

theorem IdChar.ascii {c : Char} (h : IdChar c) : c.toNat < 128 ∧ c ≠ ';' := by
  rcases h with rfl | rfl | ⟨d, hd, rfl⟩
  · decide
  · decide
  · exact (by decide : ∀ d < 16, (Nat.digitChar d).toNat < 128 ∧ Nat.digitChar d ≠ ';') d hd

theorem idChar_hexStr (n : Nat) : ∀ c ∈ hexStr n, IdChar c := by
  induction n using Nat.strongRecOn with
  | ind n ih =>
    by_cases hn : n < 16
    · rw [IDEncoder.hexStr_digit hn]
      intro c hc
      exact .inr (.inr ⟨n, hn, mem_singleton.mp hc⟩)
    rw [hexStr, Nat.toDigits_of_base_le (by decide) (by omega)]
    intro c hc
    rcases mem_append.mp hc with hc | hc
    · exact ih (n / 16) (by omega) c hc
    · exact .inr (.inr ⟨n % 16, Nat.mod_lt n (by decide), mem_singleton.mp hc⟩)

namespace IDEncoder

def Plain (e : IDEncoder) : Prop := ∀ c ∈ e.s, IdChar c

theorem plain_append {s t : List Char} (hs : ∀ c ∈ s, IdChar c) (ht : ∀ c ∈ t, IdChar c) :
    ∀ c ∈ s ++ t, IdChar c := by
  intro c hc
  exact (mem_append.mp hc).elim (hs c) (ht c)

variable {e : IDEncoder}

theorem Plain.padMask (he : e.Plain) (fuel id : Nat) : (padMask fuel e id).Plain := by
  induction fuel generalizing e with
  | zero => exact he
  | succ fuel ih =>
    unfold IDEncoder.padMask
    split_ifs
    · exact ih (plain_append he (idChar_hexStr _))
    · exact he

theorem Plain.addNumber (he : e.Plain) (id : Nat) : (e.addNumber id).Plain := by
  have hdigit : ∀ c ∈ if e.maskDigit ≠ 0 then e.s ++ hexStr e.maskDigit else e.s, IdChar c := by
    split_ifs
    · exact plain_append he (idChar_hexStr _)
    · exact he
  have hcomma : ∀ s, (∀ c ∈ s, IdChar c) → ∀ c ∈ if s ≠ [] then s ++ [','] else s, IdChar c := by
    intro s hs
    split_ifs
    · exact plain_append hs (by simp [IdChar])
    · exact hs
  exact plain_append (hcomma _ hdigit) (idChar_hexStr id)

theorem Plain.addBit (he : e.Plain) (id : Nat) : (e.addBit id).Plain := by
  refine Plain.padMask (e := { e with s := if e.maskDigit = 0 then e.s ++ [':'] else e.s }) ?_ id id
  split_ifs
  · exact plain_append he (by simp [IdChar])
  · exact he

theorem Plain.foldl_add (he : e.Plain) (ids : List Nat) : (ids.foldl add e).Plain := by
  induction ids generalizing e with
  | nil => exact he
  | cons id ids ih =>
    refine ih ?_
    rcases e.add_eq_or id with hadd | hadd
    · exact hadd ▸ he.addNumber id
    · exact hadd ▸ he.addBit id

end IDEncoder

theorem idChar_encodeIdSet (ids : Finset Nat) : ∀ c ∈ encodeIdSet ids, IdChar c := by
  have hplain := IDEncoder.Plain.foldl_add (e := ⟨[], 0, 0⟩) (by simp [IDEncoder.Plain])
    (ids.sort (· ≤ ·))
  unfold encodeIdSet IDEncoder.finish
  split_ifs
  · exact IDEncoder.plain_append hplain (idChar_hexStr _)
  · exact hplain

end Digits

section Text

variable {py : Python} {sg : Signer} {data : Dict}

def entryOf (py : Python) (field : Field) (text : List Char) : Entry :=
  ⟨[UInt8.ofNat field.abbr.toNat], py.bytes text⟩

def written (py : Python) (text : Field → Option (List Char)) : List Entry :=
  Signer.sortedFields.filterMap fun f => (text f).map (entryOf py f)

theorem abbr_ascii (field : Field) : field.abbr.toNat < 128 ∧
    UInt8.ofNat field.abbr.toNat ≠ 59 ∧ UInt8.ofNat field.abbr.toNat ≠ 61 := by
  cases field <;> decide

theorem bytes_entry (field : Field) (s : List Char) :
    py.bytes (field.abbr :: '=' :: s) = (entryOf py field s).text := by
  rw [bytes_cons, bytes_cons, py.encode_ascii _ (abbr_ascii field).1, py.encode_ascii '=' (by decide)]
  rfl

variable (py) in
theorem bytes_intercalate (es : List (Field × List Char)) :
    py.bytes ([';'].intercalate (es.map fun e => e.1.abbr :: '=' :: e.2)) =
      joined (es.map fun e => entryOf py e.1 e.2) := by
  induction es with
  | nil => rfl
  | cons e es ih =>
    cases es with
    | nil => simp [joined, bytes_entry]
    | cons e' es =>
      simp only [map_cons] at ih ⊢
      rw [intercalate_cons_cons, bytes_append, bytes_append, bytes_entry, ih,
        show py.bytes [';'] = [59] from bytes_ascii (by decide)]
      simp [joined]

theorem bytes_render (text : Field → Option (List Char)) :
    py.bytes (Signer.render text) = joined (written py text) := by
  have hes := bytes_intercalate py
    (Signer.sortedFields.filterMap fun f => (text f).map fun s => (f, s))
  simp only [map_filterMap, Option.map_map, Function.comp_def] at hes
  exact hes

variable {text : List Char}

theorem value_neverUnload (h : sg.generateMetadata py data = .ok text)
    (hsg : sg.defaultPrivileges.Nonempty) :
    data.value .neverUnload = .none ∨ data.value .neverUnload = .str "true".toList ∨
      data.value .neverUnload = .str "false".toList := by
  obtain ⟨r, hr⟩ := (Signer.generateMetadata_ok h hsg).2 .neverUnload
  unfold Signer.extractField at hr
  split at hr
  · exact .inl ‹_›
  · obtain ⟨s, hcheck, -⟩ := Signer.of_map_ok hr
    obtain ⟨hv, rfl | rfl⟩ := Signer.checkBoolean_ok hcheck
    · exact .inr (.inl hv)
    · exact .inr (.inr hv)

theorem fieldText_noSemicolon (h : sg.generateMetadata py data = .ok text)
    (hsg : sg.defaultPrivileges.Nonempty) {field : Field} {s : List Char}
    (hs : sg.fieldText py data field = some s) : ';' ∉ s := by
  have hids : ∀ ids : Finset Nat, ';' ∉ encodeIdSet ids :=
    fun ids hmem => (idChar_encodeIdSet ids _ hmem).ascii.2 rfl
  unfold Signer.fieldText at hs
  cases field with
  | privileges | services =>
    simp only at hs
    split_ifs at hs
    cases hs
    exact hids _
  | appName =>
    cases hv : data.value .appName with
    | none | strs ids => rw [hv] at hs; cases hs
    | str t =>
      rw [hv] at hs
      cases hs
      exact escape_noSemicolon t
  | neverUnload =>
    rcases value_neverUnload h hsg with hv | hv | hv
    all_goals rw [hv] at hs; cases hs
    · decide
    · decide

theorem written_clean {text : Field → Option (List Char)}
    (h : ∀ f s, text f = some s → ';' ∉ s) : ∀ e ∈ written py text, e.Clean := by
  intro e he
  obtain ⟨f, -, hf⟩ := mem_filterMap.mp he
  obtain ⟨s, hs, rfl⟩ := Option.map_eq_some_iff.mp hf
  refine ⟨by simp [entryOf], ?_, bytes_noSemicolon (h f s hs)⟩
  intro b hb
  obtain rfl := mem_singleton.mp hb
  exact (abbr_ascii f).2

namespace MetadataInfo

def isTrue (value : List UInt8) : Bool :=
  1 ≤ value.length && value = [116, 114, 117, 101, 0].take value.length

def filled (py : Python) (text : Field → Option (List Char)) : MetadataInfo where
  privileges := (text .privileges).elim [] fun s => readIds (py.bytes s)
  hostedServices := (text .services).elim [] fun s => readIds (py.bytes s)
  appName := (text .appName).elim zero.appName fun s => readString (py.bytes s) zero.appName
  neverUnload := (text .neverUnload).elim false fun s => isTrue (py.bytes s)
  indAppName := (text .appName).isSome
  indNeverUnload := true

theorem store_neverUnload (me : MetadataInfo) (s : List Char) :
    me.store (entryOf py .neverUnload s) =
      { me with neverUnload := isTrue (py.bytes s) || me.neverUnload, indNeverUnload := true } := by
  show ({ me with neverUnload := if isTrue (py.bytes s) then true else me.neverUnload,
                  indNeverUnload := true } : MetadataInfo) = _
  cases isTrue (py.bytes s) <;> rfl

theorem store_appName (me : MetadataInfo) (s : List Char) : me.store (entryOf py .appName s) =
      { me with appName := readString (py.bytes s) me.appName, indAppName := true } := rfl

theorem store_privileges (me : MetadataInfo) (s : List Char) : me.store (entryOf py .privileges s) =
      { me with privileges := me.privileges ++ readIds (py.bytes s) } := rfl

theorem store_services (me : MetadataInfo) (s : List Char) : me.store (entryOf py .services s) =
      { me with hostedServices := me.hostedServices ++ readIds (py.bytes s) } := rfl

theorem foldl_written (text : Field → Option (List Char)) (me : MetadataInfo) :
    (written py text).foldl store me =
      Signer.sortedFields.foldl (fun me f => (text f).elim me fun s => me.store (entryOf py f s))
        me := by
  rw [written, foldl_filterMap]
  congr 1
  funext me f
  cases text f <;> rfl

theorem parseMetaData_joined {text : Field → Option (List Char)}
    (h : ∀ f s, text f = some s → ';' ∉ s) :
    zero.parseMetaData (joined (written py text)) = filled py text := by
  unfold parseMetaData
  rw [parseLoop_joined (written_clean h) (length_joined _), foldl_written]
  simp only [Signer.sortedFields, foldl_cons, store_neverUnload,
    store_appName, store_privileges, store_services, filled]
  cases text .neverUnload <;> cases text .appName <;> cases text .privileges <;>
    cases text .services <;> simp [zero]

end MetadataInfo

def Value.bytes (py : Python) : Value → List UInt8
  | .str s => py.bytes s
  | _ => []

structure Stores (py : Python) (sg : Signer) (data : Dict) (info : MetadataInfo) : Prop where
  appName : cString info.appName = (data.value .appName).bytes py
  indAppName : info.indAppName = true ↔ data.value .appName ≠ .none
  neverUnload : info.neverUnload = true ↔ data.value .neverUnload = .str "true".toList
  privileges : info.privileges.Nodup ∧
    info.privileges.toFinset.image UInt32.toNat = sg.classIds py (data.value .privileges).items
  hostedServices : info.hostedServices.Nodup ∧
    info.hostedServices.toFinset.image UInt32.toNat = sg.classIds py (data.value .services).items

/-- What the loader has room for: some field, a name that is a string of at most 31 bytes, and ids
of 32 bits. -/
structure Fits (py : Python) (sg : Signer) (data : Dict) : Prop where
  field : ∃ f, (data.value f).items ≠ []
  appName : ((data.value .appName).bytes py).length ≤ 31 ∧ 0 ∉ (data.value .appName).bytes py
  privileges : ∀ id ∈ sg.classIds py (data.value .privileges).items, id < 2 ^ 32
  services : ∀ id ∈ sg.classIds py (data.value .services).items, id < 2 ^ 32

def MetadataInfo.part (info : MetadataInfo) : Field → MetadataInfo
  | .privileges => { zero with privileges := info.privileges }
  | .services => { zero with hostedServices := info.hostedServices }
  | .appName => { zero with appName := info.appName, indAppName := info.indAppName }
  | .neverUnload => { zero with neverUnload := info.neverUnload }

theorem joined_eq_nil {es : List Entry} : joined es = [] ↔ es = [] := by
  refine ⟨fun h => ?_, fun h => h ▸ rfl⟩
  have hlen := length_joined es
  rw [h] at hlen
  exact length_eq_zero_iff.mp (Nat.le_zero.mp hlen)

theorem written_eq_nil {text : Field → Option (List Char)} :
    written py text = [] ↔ ∀ f, text f = none := by
  have hall : ∀ f, f ∈ Signer.sortedFields := by
    intro f
    cases f <;> decide
  simp [written, hall]

theorem new_generateMetadata (h : sg.generateMetadata py data = .ok text)
    (hsg : sg.defaultPrivileges.Nonempty) {info : MetadataInfo} :
    MetadataInfo.new (py.bytes text) = some info ↔
      (∃ f, (data.value f).items ≠ []) ∧ .filled py (sg.fieldText py data) = info := by
  have hiff : (∃ f, (data.value f).items ≠ []) ↔ written py (sg.fieldText py data) ≠ [] := by
    rw [ne_eq, written_eq_nil, not_forall]
    exact exists_congr fun f => not_congr (Signer.fieldText_eq_none_iff h hsg f).symm
  rw [(Signer.generateMetadata_ok h hsg).1, bytes_render, MetadataInfo.new,
    MetadataInfo.parseMetaData_joined fun f s => fieldText_noSemicolon h hsg, hiff]
  simp only [length_pos_iff, ne_eq, joined_eq_nil, Option.ite_none_right_eq_some, Option.some.injEq]

theorem readIds_encodeIdSet {S : Finset Nat} :
    ((MetadataInfo.readIds (py.bytes (encodeIdSet S))).Nodup ∧
      (MetadataInfo.readIds (py.bytes (encodeIdSet S))).toFinset.image UInt32.toNat = S) ↔
      ∀ id ∈ S, id < 2 ^ 32 := by
  constructor
  · rintro ⟨-, himage⟩ id hid
    rw [← himage] at hid
    obtain ⟨n, -, rfl⟩ := Finset.mem_image.mp hid
    exact n.toNat_lt
  · intro h
    obtain ⟨ids, hscan, hnodup, himage⟩ := scans_encodeIdSet h
    rw [bytes_plain fun c hc => (idChar_encodeIdSet S c hc).ascii.1, MetadataInfo.readIds_eq hscan]
    exact ⟨hnodup, himage⟩

variable (py) in
theorem stored_ids_iff (S : Finset Nat) :
    let ids := (if S = ∅ then none else some (encodeIdSet S)).elim []
      fun s => MetadataInfo.readIds (py.bytes s)
    (ids.Nodup ∧ ids.toFinset.image UInt32.toNat = S) ↔ ∀ id ∈ S, id < 2 ^ 32 := by
  by_cases hS : S = ∅
  · simp [hS]
  · simpa [hS] using readIds_encodeIdSet

section

variable (h : sg.generateMetadata py data = .ok text)
include h

section

variable (hsg : sg.defaultPrivileges.Nonempty)
include hsg

theorem isTrue_neverUnload : (MetadataInfo.filled py (sg.fieldText py data)).neverUnload = true ↔
      data.value .neverUnload = .str "true".toList := by
  have htrue : MetadataInfo.isTrue (py.bytes "true".toList) = true := by
    rw [bytes_ascii (by decide)]
    decide
  have hfalse : MetadataInfo.isTrue (py.bytes "false".toList) = false := by
    rw [bytes_ascii (by decide)]
    decide
  have hstored : (MetadataInfo.filled py (sg.fieldText py data)).neverUnload =
      (sg.fieldText py data .neverUnload).elim false fun s => MetadataInfo.isTrue (py.bytes s) := rfl
  rw [hstored]
  rcases value_neverUnload h hsg with hv | hv | hv
  · rw [Signer.fieldText_none hv, hv]
    exact iff_of_false Bool.false_ne_true nofun
  · rw [Signer.fieldText_neverUnload hv, hv]
    exact iff_of_true htrue rfl
  · rw [Signer.fieldText_neverUnload hv, hv]
    exact iff_of_false (Bool.not_eq_true _ ▸ hfalse) (by decide)

theorem value_appName : data.value .appName = .none ∨ ∃ s, data.value .appName = .str s := by
  obtain ⟨r, hr⟩ := (Signer.generateMetadata_ok h hsg).2 .appName
  unfold Signer.extractField at hr
  cases hv : data.value .appName with
  | none => exact .inl rfl
  | str s => exact .inr ⟨s, rfl⟩
  | strs ids =>
    rw [hv] at hr
    cases hr

theorem appName_stored_iff : (cString (MetadataInfo.filled py (sg.fieldText py data)).appName =
        (data.value .appName).bytes py ↔
      ((data.value .appName).bytes py).length ≤ 31 ∧ 0 ∉ (data.value .appName).bytes py) ∧
    ((MetadataInfo.filled py (sg.fieldText py data)).indAppName = true ↔
      data.value .appName ≠ .none) := by
  have hstored : (MetadataInfo.filled py (sg.fieldText py data)).appName =
      (sg.fieldText py data .appName).elim MetadataInfo.zero.appName fun s =>
        readString (py.bytes s) MetadataInfo.zero.appName := rfl
  have hflag : (MetadataInfo.filled py (sg.fieldText py data)).indAppName =
      (sg.fieldText py data .appName).isSome := rfl
  rw [hstored, hflag]
  rcases value_appName h hsg with hv | ⟨s, hv⟩
  · rw [Signer.fieldText_none hv, hv]
    exact ⟨iff_of_true (show cString MetadataInfo.zero.appName = [] by decide)
      (by simp [Value.bytes]), iff_of_false nofun (fun h => h rfl)⟩
  rw [Signer.fieldText_appName hv, hv]
  have hlength : MetadataInfo.zero.appName.length = 32 := rfl
  have hfits : cString (readString (py.bytes (escape s)) MetadataInfo.zero.appName) =
      unescape (py.bytes (escape s)) ↔ _ := cString_readString_iff (by decide)
  rw [unescape_escape, hlength, Nat.lt_succ_iff] at hfits
  exact ⟨hfits, iff_of_true rfl nofun⟩

end

end

/-- The values are read back from the text, each part from its own field, exactly if they fit. -/
theorem metadata_roundTrip_iff {classIdMap : List Char → Option Nat} {text : List Char}
    (hnew : Signer.new py classIdMap = .ok sg) (h : sg.generateMetadata py data = .ok text) :
    ((∃ info, MetadataInfo.new (py.bytes text) = some info ∧ Stores py sg data info) ∧
      ∀ data' text' info info', sg.generateMetadata py data' = .ok text' →
        MetadataInfo.new (py.bytes text) = some info →
        MetadataInfo.new (py.bytes text') = some info' →
        ∀ f, data.value f = data'.value f → info.part f = info'.part f) ↔
      Fits py sg data := by
  have hsg := (Signer.new_ok hnew).2
  have hname := appName_stored_iff h hsg
  have hpriv := stored_ids_iff py (sg.classIds py (data.value .privileges).items)
  have hserv := stored_ids_iff py (sg.classIds py (data.value .services).items)
  rw [and_iff_left]
  · constructor
    · rintro ⟨info, hinfo, hstores⟩
      obtain ⟨hfield, rfl⟩ := (new_generateMetadata h hsg).mp hinfo
      exact ⟨hfield, hname.1.mp hstores.appName, hpriv.mp hstores.privileges,
        hserv.mp hstores.hostedServices⟩
    · intro hfits
      refine ⟨_, (new_generateMetadata h hsg).mpr ⟨hfits.field, rfl⟩, ?_⟩
      exact ⟨hname.1.mpr hfits.appName, hname.2, isTrue_neverUnload h hsg,
        hpriv.mpr hfits.privileges, hserv.mpr hfits.services⟩
  · intro data' text' info info' h' hinfo hinfo' f hf
    obtain ⟨-, rfl⟩ := (new_generateMetadata h hsg).mp hinfo
    obtain ⟨-, rfl⟩ := (new_generateMetadata h' hsg).mp hinfo'
    cases f <;> simp only [MetadataInfo.part, MetadataInfo.filled, (Signer.fieldText_congr hf)]

end Text

theorem le_ofNat {n : Nat} (h : 128 ≤ n) (hn : n < 256) : 128 ≤ UInt8.ofNat n := by
  rw [UInt8.le_iff_toNat_le, UInt8.toNat_ofNat_of_lt' hn]
  exact h

theorem utf8EncodeChar_other {c : Char} (hc : 128 ≤ c.toNat) :
    ∀ b ∈ String.utf8EncodeChar c, 128 ≤ b := by
  intro b hb
  unfold String.utf8EncodeChar at hb
  simp only at hb
  split_ifs at hb with h1
  · have : c.toNat ≤ 127 := h1
    omega
  all_goals
    simp only [mem_cons, not_mem_nil, or_false] at hb
  · rcases hb with rfl | rfl <;> exact le_ofNat (by omega) (by omega)
  · rcases hb with rfl | rfl | rfl <;> exact le_ofNat (by omega) (by omega)
  · rcases hb with rfl | rfl | rfl | rfl <;> exact le_ofNat (by omega) (by omega)

def utf8 : Python where
  lower s := s.map Char.toLower
  printList ids := ids.flatten
  encode := String.utf8EncodeChar
  encode_ascii _ hc := if_pos (Nat.le_of_lt_succ hc)
  encode_other _ := utf8EncodeChar_other

def sampleClassIds (name : List Char) : Option Nat :=
  if name = "tprocessloader".toList then some 101
  else if name = "tmempoolfactory".toList then some 102 else none

def sampleSigner : Signer := ⟨sampleClassIds, {102, 101}⟩

theorem new_sampleSigner : Signer.new utf8 sampleClassIds = .ok sampleSigner := rfl

theorem metadata_roundTrip_fails : (∃ text info, sampleSigner.generateMetadata utf8
        [("appName".toList, .str (List.replicate 31 'a' ++ ['\n'])), ("privileges".toList, .none)] =
          .ok text ∧
      MetadataInfo.new (utf8.bytes text) = some info ∧
      cString info.appName = List.replicate 31 97) ∧
    ∃ text, sampleSigner.generateMetadata utf8 [("privileges".toList, .strs [])] = .ok text ∧
      MetadataInfo.new (utf8.bytes text) = none := by
  exact ⟨⟨_, _, rfl, rfl, by decide⟩, _, rfl, rfl⟩

def sampleData : Dict :=
  [("appName".toList, .str "50%;p=1".toList), ("privileges".toList, .none)]

theorem metadata_roundTrip_iff_sample :
    ∃ text, sampleSigner.generateMetadata utf8 sampleData = .ok text ∧
      ((∃ info, MetadataInfo.new (utf8.bytes text) = some info ∧
        Stores utf8 sampleSigner sampleData info) ∧
      ∀ data' text' info info', sampleSigner.generateMetadata utf8 data' = .ok text' →
        MetadataInfo.new (utf8.bytes text) = some info →
        MetadataInfo.new (utf8.bytes text') = some info' →
        ∀ f, sampleData.value f = data'.value f → info.part f = info'.part f) :=
  ⟨_, rfl, (metadata_roundTrip_iff new_sampleSigner rfl).mpr
    ⟨⟨.appName, by decide⟩, by decide, by decide, by decide⟩⟩

end MinkIpc.Metadata
