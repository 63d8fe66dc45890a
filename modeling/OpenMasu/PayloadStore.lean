import Mathlib.Data.List.Infix
import OpenMasu.InsertionMap
import OpenMasu.SdkRequestAuth

/-!
# The encrypted payload store

A payload is sealed with a key of its own, and that key with the wrapping key
of the store; both go to files under one name, made of the tenant, the app,
the object and a random suffix.  The reference to a payload carries the name.
The writer replaces what a name may not hold, the reader checks what a
reference may hold, and the two do not agree on a point next to a point.

* `writePayload`, `readPayload`, `purgePayload` — the operations;
* `StoreCall`, `filesAfter` — one call after another;
* `doublePoint_append` — where two points meet;
* `Lifetime` — a payload can be read until it is purged;
* `double_point_unreadable` — a payload that never can;
* `lifetime_iff` — the names with which a payload lives.
-/

namespace OpenMasu

section Store

/-- What an encryption leaves. -/
structure SealedBytes where
  nonce : List UInt8
  tag : List UInt8
  ciphertext : List UInt8
  deriving DecidableEq

/-- `aes-256-gcm`: decryption inverts encryption under the same key and
associated data. -/
structure Gcm where
  encrypt : (key nonce plaintext : List UInt8) → (aad : String) → SealedBytes
  decrypt : (key : List UInt8) → SealedBytes → (aad : String) → Option (List UInt8)
  decrypt_encrypt : ∀ key nonce plaintext aad,
    decrypt key (encrypt key nonce plaintext aad) aad = some plaintext

/-- A file of the store. -/
structure EncryptedObject where
  keyId : String
  tenantId : String
  appId : String
  payload : SealedBytes

/-- The files of the store by their names, without the ending. -/
structure PayloadFiles where
  objects : InsertionMap String EncryptedObject
  keys : InsertionMap String SealedBytes

/-- What a read throws. -/
inductive StoreError where
  | unsupportedReference
  | invalidReference
  | noSuchFile
  | fileExists
  | undecryptable
  deriving DecidableEq

/-- The random draws of one write. -/
structure WriteDraws where
  suffix : String
  dataKey : List UInt8
  payloadNonce : List UInt8
  keyNonce : List UInt8
  suffix_hex : matchesClass (fun c => ('0' ≤ c && c ≤ '9') || ('a' ≤ c && c ≤ 'f')) 16 16 suffix

/-- A write, with the draws of its nonces and its suffix. -/
structure WriteCall where
  tenantId : String
  appId : String
  objectId : String
  plaintext : List UInt8
  draws : WriteDraws

/-- The characters of a file name. -/
def isNameChar (c : Char) : Bool := isWordChar c || c = '.' || c = '_' || c = '-'

/-- A text with every character that a file name may not have replaced. -/
def sanitize (text : List Char) : List Char := text.map fun c => if isNameChar c then c else '_'

/-- The name of the files of a write. -/
def WriteCall.keyId (w : WriteCall) : String :=
  String.ofList (sanitize (w.tenantId ++ "-" ++ w.appId ++ "-" ++ w.objectId).toList ++
    '.' :: w.draws.suffix.toList)

/-- The reference that a write returns. -/
def WriteCall.reference (w : WriteCall) : String := "encrypted:" ++ w.keyId

/-- `referenceKeyId`. -/
def referenceKeyId (reference : String) : Except StoreError String :=
  if "encrypted:".toList <+: reference.toList then
    let keyId := String.ofList (reference.toList.drop "encrypted:".toList.length)
    if !matchesClass isNameChar 1 512 keyId || ['.', '.'] <:+: keyId.toList then
      .error .invalidReference
    else .ok keyId
  else .error .unsupportedReference

/-- What the encryption binds a payload to. -/
def payloadAad (tenantId appId keyId : String) : String :=
  tenantId ++ String.singleton (Char.ofNat 0) ++ appId ++ String.singleton (Char.ofNat 0) ++ keyId

variable (gcm : Gcm) (wrappingKey : List UInt8)

/-- `write`.  Neither file may exist; a key whose object cannot be written is
removed again. -/
def writePayload (w : WriteCall) (files : PayloadFiles) :
    Except StoreError String × PayloadFiles :=
  let keyId := w.keyId
  let aad := payloadAad w.tenantId w.appId keyId
  let payload := gcm.encrypt w.draws.dataKey w.draws.payloadNonce w.plaintext aad
  let wrapped := gcm.encrypt wrappingKey w.draws.keyNonce w.draws.dataKey keyId
  if (files.keys.get keyId).isSome then (.error .fileExists, files)
  else if (files.objects.get keyId).isSome then (.error .fileExists, files)
  else (.ok w.reference, {
    objects := files.objects.set keyId ⟨keyId, w.tenantId, w.appId, payload⟩
    keys := files.keys.set keyId wrapped })

/-- `read`. -/
def readPayload (reference : String) (files : PayloadFiles) : Except StoreError (List UInt8) := do
  let keyId ← referenceKeyId reference
  match files.objects.get keyId, files.keys.get keyId with
  | some object, some wrapped =>
      match gcm.decrypt wrappingKey wrapped keyId with
      | some dataKey =>
          let aad := payloadAad object.tenantId object.appId keyId
          (gcm.decrypt dataKey object.payload aad).elim (.error .undecryptable) .ok
      | none => .error .undecryptable
  | _, _ => .error .noSuchFile

/-- `purge`. -/
def purgePayload (reference : String) (files : PayloadFiles) :
    Except StoreError Unit × PayloadFiles :=
  match referenceKeyId reference with
  | .error e => (.error e, files)
  | .ok keyId => (.ok (), ⟨files.objects.erase keyId, files.keys.erase keyId⟩)

/-- The calls of the store. -/
inductive StoreCall where
  | write (w : WriteCall)
  | read (reference : String)
  | purge (reference : String)

/-- The files behind a call. -/
def StoreCall.apply : StoreCall → PayloadFiles → PayloadFiles
  | .write w, files => (writePayload gcm wrappingKey w files).2
  | .read _, files => files
  | .purge reference, files => (purgePayload reference files).2

/-- The files behind a sequence of calls on an empty store. -/
def filesAfter (calls : List StoreCall) : PayloadFiles :=
  calls.foldl (fun files call => call.apply gcm wrappingKey files) ⟨.empty, .empty⟩

/-- The reference that a call changes. -/
def StoreCall.target : StoreCall → Option String
  | .write w => some w.reference
  | .read _ => none
  | .purge reference => some reference

/-- The random suffix of a write. -/
def StoreCall.suffix : StoreCall → Option String
  | .write w => some w.draws.suffix
  | _ => none

end Store

section Names

/-- Two points next to each other. -/
def HasDoublePoint (text : List Char) : Prop := ['.', '.'] <:+: text

instance (text : List Char) : Decidable (HasDoublePoint text) :=
  inferInstanceAs (Decidable (_ <:+: _))

/-- Two points of a joined text are in one of its parts, or meet between them. -/
theorem doublePoint_append {s t : List Char} : HasDoublePoint (s ++ t) ↔
    HasDoublePoint s ∨ HasDoublePoint t ∨ (s.getLast? = some '.' ∧ t.head? = some '.') := by
  rw [HasDoublePoint, List.infix_append_iff_ne_nil, ← List.singleton_suffix_iff_getLast?_eq_some,
    ← List.singleton_prefix_iff_head?_eq_some]
  constructor
  · rintro (h | h | ⟨l, r, hl, hr, hsplit, hs, ht⟩)
    · exact .inl h
    · exact .inr (.inl h)
    · obtain ⟨a, l, rfl⟩ := List.exists_cons_of_ne_nil hl
      obtain ⟨b, r, rfl⟩ := List.exists_cons_of_ne_nil hr
      have hlength := congrArg List.length hsplit
      simp only [List.length_cons, List.length_append, List.length_nil] at hlength
      obtain rfl : l = [] := List.eq_nil_of_length_eq_zero (by omega)
      obtain rfl : r = [] := List.eq_nil_of_length_eq_zero (by omega)
      cases hsplit
      exact .inr (.inr ⟨hs, ht⟩)
  · rintro (h | h | ⟨hs, ht⟩)
    · exact .inl h
    · exact .inr (.inl h)
    · exact .inr (.inr ⟨['.'], ['.'], nofun, nofun, rfl, hs, ht⟩)

/-- A part that starts with another character keeps to itself. -/
theorem doublePoint_append_cons {s t : List Char} {c : Char} (hc : c ≠ '.') :
    HasDoublePoint (s ++ c :: t) ↔ HasDoublePoint s ∨ HasDoublePoint t := by
  have hcons : HasDoublePoint (c :: t) ↔ HasDoublePoint t := by
    rw [← List.singleton_append, doublePoint_append]
    constructor
    · rintro (h | h | ⟨h, -⟩)
      · exact absurd h.length_le (Nat.not_succ_le_self 1)
      · exact h
      · exact absurd (Option.some.inj h) hc
    · exact fun h => .inr (.inl h)
  rw [doublePoint_append, hcons]
  constructor
  · rintro (h | h | ⟨-, h⟩)
    · exact .inl h
    · exact .inr h
    · exact absurd (Option.some.inj h) hc
  · rintro (h | h)
    · exact .inl h
    · exact .inr (.inl h)

/-- Characters are replaced one by one. -/
theorem sanitize_append (s t : List Char) : sanitize (s ++ t) = sanitize s ++ sanitize t :=
  List.map_append

/-- Points are kept, and nothing else becomes one. -/
theorem sanitize_eq_point {c : Char} : (if isNameChar c then c else '_') = '.' ↔ c = '.' := by
  constructor
  · intro h
    split at h
    · exact h
    · cases h
  · rintro rfl
    rfl

/-- A point stays a point, and nothing becomes one. -/
theorem doublePoint_sanitize {s : List Char} :
    HasDoublePoint (sanitize s) ↔ HasDoublePoint s := by
  induction s with
  | nil => rfl
  | cons a s ih =>
      have hpair : ['.', '.'] <+: sanitize (a :: s) ↔ ['.', '.'] <+: a :: s := by
        cases s with
        | nil => simp [sanitize, List.cons_prefix_cons]
        | cons b s =>
            simp only [sanitize, List.map_cons, List.cons_prefix_cons, List.nil_prefix, and_true,
              eq_comm (a := '.'), sanitize_eq_point]
      have hcons : sanitize (a :: s) = (if isNameChar a then a else '_') :: sanitize s := rfl
      rw [HasDoublePoint, HasDoublePoint, List.infix_cons_iff, ← hpair, hcons,
        List.infix_cons_iff, ← hcons]
      exact or_congr Iff.rfl ih

/-- So a text ends in a point where it did before. -/
theorem endsInPoint_sanitize {s : List Char} :
    (sanitize s).getLast? = some '.' ↔ s.getLast? = some '.' := by
  rw [sanitize, List.getLast?_map]
  cases s.getLast? with
  | none => exact Iff.rfl
  | some a =>
      rw [Option.map_some, Option.some.injEq, Option.some.injEq]
      exact sanitize_eq_point

end Names

section References

/-- A uuid as it is printed. -/
def isUuid : String → Bool :=
  matchesClass (fun c => ('0' ≤ c && c ≤ '9') || ('a' ≤ c && c ≤ 'f') || c = '-') 36 36

/-- Random bytes in `base64url`. -/
def isBase64Url (length : Nat) : String → Bool :=
  matchesClass (fun c => isWordChar c || c = '-' || c = '_') length length

/-- The object ids of the callers of the store. -/
inductive CallerObjectId : String → Prop where
  | ingestBatch {id : String} (h : isUuid id) : CallerObjectId ("ingest-batch-" ++ id)
  | sdkKey {id : String} (h : isKeyId id) : CallerObjectId ("sdk-key-" ++ id)
  | installationKey {random : String} (h : isBase64Url 24 random) :
      CallerObjectId ("installation-key:" ++ random)
  | adservicesResult {id : String} (h : isUuid id) : CallerObjectId ("adservices-result-" ++ id)
  | integrityResult {id : String} (h : isUuid id) : CallerObjectId ("integrity-result-" ++ id)
  | inbox {id : String} (h : isUuid id) : CallerObjectId id

/-- A write of one of the callers. -/
structure WriteCall.FromCaller (w : WriteCall) : Prop where
  tenantId : isKeyId w.tenantId
  appId : isKeyId w.appId
  objectId : CallerObjectId w.objectId

/-- No two points come together in the name of a write. -/
structure WriteCall.IsPlain (w : WriteCall) : Prop where
  tenantId : ¬ HasDoublePoint w.tenantId.toList
  appId : ¬ HasDoublePoint w.appId.toList
  objectId : ¬ HasDoublePoint w.objectId.toList
  objectEnd : w.objectId.toList.getLast? ≠ some '.'

variable {w w' : WriteCall}

/-- An identifier of at most 128 characters behind a short beginning. -/
theorem length_append_le {first id : String} {allowed : Char → Bool} {least most : Nat}
    (hfirst : first.toList.length ≤ 18) (h : matchesClass allowed least most id = true)
    (hmost : most ≤ 128) : (first ++ id).toList.length ≤ 146 := by
  have hlength := (matchesClass_eq_true.mp h).1.2
  rw [String.toList_append, List.length_append]
  omega

/-- The object ids of the callers have at most 146 characters. -/
theorem CallerObjectId.length_le {id : String} (h : CallerObjectId id) :
    id.toList.length ≤ 146 := by
  cases h with
  | ingestBatch h => exact length_append_le (by decide) h (by decide)
  | sdkKey h => exact length_append_le (by decide) h le_rfl
  | installationKey h => exact length_append_le (by decide) h (by decide)
  | adservicesResult h => exact length_append_le (by decide) h (by decide)
  | integrityResult h => exact length_append_le (by decide) h (by decide)
  | inbox h =>
      have hlength := (matchesClass_eq_true.mp h).1.2
      omega

/-- The name of a file: tenant, app and object, a point and the suffix. -/
theorem keyId_toList (w : WriteCall) : w.keyId.toList =
    (sanitize w.tenantId.toList ++ '-' :: (sanitize w.appId.toList ++
      '-' :: sanitize w.objectId.toList)) ++ '.' :: w.draws.suffix.toList := by
  have hdash : sanitize "-".toList = ['-'] := rfl
  rw [WriteCall.keyId, String.toList_ofList]
  simp only [String.toList_append, sanitize_append, hdash, List.append_assoc, List.cons_append,
    List.nil_append]

/-- The suffix has no point. -/
theorem point_notMem_suffix (w : WriteCall) : '.' ∉ w.draws.suffix.toList :=
  notMem_of_matchesClass w.draws.suffix_hex (by decide)

/-- Nor does it make a double one. -/
theorem doublePoint_suffix (w : WriteCall) :
    ¬ HasDoublePoint ('.' :: w.draws.suffix.toList) := by
  intro h
  rcases List.infix_cons_iff.mp h with h | h
  · exact point_notMem_suffix w ((List.cons_prefix_cons.mp h).2.subset List.mem_cons_self)
  · exact point_notMem_suffix w (h.subset List.mem_cons_self)

/-- What stands behind another character ends in a point by itself. -/
theorem endsInPoint_append_cons {s t : List Char} {c : Char} (hc : c ≠ '.') :
    (s ++ c :: t).getLast? = some '.' ↔ t.getLast? = some '.' := by
  rw [List.getLast?_append, List.getLast?_cons]
  cases t.getLast? with
  | none => simp [hc]
  | some a => simp

/-- Points come together in a name exactly where the condition fails. -/
theorem doublePoint_keyId : ¬ HasDoublePoint w.keyId.toList ↔ w.IsPlain := by
  have hsplit : HasDoublePoint w.keyId.toList ↔
      (HasDoublePoint w.tenantId.toList ∨ HasDoublePoint w.appId.toList ∨
        HasDoublePoint w.objectId.toList) ∨ w.objectId.toList.getLast? = some '.' := by
    rw [keyId_toList, doublePoint_append, doublePoint_append_cons (by decide),
      doublePoint_append_cons (by decide), doublePoint_sanitize, doublePoint_sanitize,
      doublePoint_sanitize, endsInPoint_append_cons (by decide), endsInPoint_append_cons (by decide),
      endsInPoint_sanitize, iff_false_intro (doublePoint_suffix w), false_or,
      and_iff_left List.head?_cons]
  rw [hsplit]
  constructor
  · intro h
    exact ⟨fun ht => h (.inl (.inl ht)), fun ha => h (.inl (.inr (.inl ha))),
      fun ho => h (.inl (.inr (.inr ho))), fun hend => h (.inr hend)⟩
  · rintro h ((ht | ha | ho) | hend)
    · exact h.tenantId ht
    · exact h.appId ha
    · exact h.objectId ho
    · exact h.objectEnd hend

/-- A name is one of a file, and not too long for a reference. -/
theorem isName_keyId (h : w.FromCaller) : matchesClass isNameChar 1 512 w.keyId = true := by
  have htenant := (matchesClass_eq_true.mp h.tenantId).1.2
  have happ := (matchesClass_eq_true.mp h.appId).1.2
  have hobject := h.objectId.length_le
  have hsuffix := matchesClass_eq_true.mp w.draws.suffix_hex
  have hsanitize : ∀ text, ∀ c ∈ sanitize text, isNameChar c = true := by
    intro text c hc
    obtain ⟨a, -, rfl⟩ := List.mem_map.mp hc
    split
    · case isTrue ha => exact ha
    · rfl
  rw [matchesClass_eq_true, keyId_toList]
  constructor
  · simp only [List.length_append, List.length_cons, sanitize, List.length_map]
    omega
  · intro c hc
    simp only [List.mem_append, List.mem_cons] at hc
    rcases hc with (hc | rfl | hc | rfl | hc) | rfl | hc
    · exact hsanitize _ c hc
    · decide
    · exact hsanitize _ c hc
    · decide
    · exact hsanitize _ c hc
    · decide
    · have hhex := hsuffix.2 c hc
      simp only [isNameChar, isWordChar, Bool.or_eq_true, Bool.and_eq_true, decide_eq_true_eq]
        at hhex ⊢
      rcases hhex with hdigit | hletter
      · exact .inl (.inl (.inl (.inr hdigit)))
      · exact .inl (.inl (.inl (.inl (.inr ⟨hletter.1, Char.le_trans hletter.2 (by decide)⟩))))

/-- The reference of a caller's write is refused exactly where its name has two
points in a row. -/
theorem referenceKeyId_reference (h : w.FromCaller) : referenceKeyId w.reference =
    if HasDoublePoint w.keyId.toList then .error .invalidReference else .ok w.keyId := by
  have htext : w.reference.toList = "encrypted:".toList ++ w.keyId.toList := String.toList_append
  rw [referenceKeyId, htext, if_pos (List.prefix_append _ _), List.drop_left, String.ofList_toList]
  simp only [isName_keyId h, Bool.not_true, Bool.false_or, decide_eq_true_eq]
  rfl

/-- The random suffix makes a name its own. -/
theorem suffix_of_keyId_eq (h : w.keyId = w'.keyId) : w.draws.suffix = w'.draws.suffix := by
  have htext := congrArg String.toList h
  rw [keyId_toList, keyId_toList] at htext
  have hlength := (matchesClass_eq_true.mp w.draws.suffix_hex).1
  have hlength' := (matchesClass_eq_true.mp w'.draws.suffix_hex).1
  have hend := (List.append_inj' htext (by simp only [List.length_cons]; omega)).2
  exact String.toList_inj.mp (List.cons.inj hend).2

end References

section Frame

variable {gcm : Gcm} {wrappingKey : List UInt8} {w : WriteCall} {call : StoreCall}
  {files : PayloadFiles} {reference keyId : String}

/-- A reference that is accepted names a file. -/
theorem referenceKeyId_eq_ok (h : referenceKeyId reference = .ok keyId) :
    reference = "encrypted:" ++ keyId := by
  unfold referenceKeyId at h
  split at h
  · case isTrue hfirst =>
      dsimp only at h
      split at h
      · cases h
      · cases h
        obtain ⟨rest, hrest⟩ := hfirst
        have hname : (String.ofList rest).toList = rest := String.toList_ofList
        rw [← hrest, List.drop_left, ← String.toList_inj, String.toList_append, hname]
        exact hrest.symm
  · cases h

variable (gcm wrappingKey files) in
/-- A call leaves the files of every other reference alone. -/
theorem apply_frame (h : call.target ≠ some ("encrypted:" ++ keyId)) :
    (call.apply gcm wrappingKey files).objects.get keyId = files.objects.get keyId ∧
      (call.apply gcm wrappingKey files).keys.get keyId = files.keys.get keyId := by
  cases call with
  | read reference => exact ⟨rfl, rfl⟩
  | write w =>
      have hne : w.keyId ≠ keyId := by
        rintro rfl
        exact h rfl
      unfold StoreCall.apply writePayload
      dsimp only
      split
      · exact ⟨rfl, rfl⟩
      · split
        · exact ⟨rfl, rfl⟩
        · exact ⟨InsertionMap.get_set_other _ _ hne, InsertionMap.get_set_other _ _ hne⟩
  | purge reference =>
      unfold StoreCall.apply purgePayload
      dsimp only
      cases hkey : referenceKeyId reference with
      | error e => exact ⟨rfl, rfl⟩
      | ok purged =>
          have hne : keyId ≠ purged := by
            rintro rfl
            exact h (congrArg some (referenceKeyId_eq_ok hkey))
          exact ⟨InsertionMap.get_erase_other _ hne, InsertionMap.get_erase_other _ hne⟩

/-- A call on one reference never changes what another reads. -/
theorem readPayload_frame (h : call.target ≠ some reference) :
    readPayload gcm wrappingKey reference (call.apply gcm wrappingKey files) =
      readPayload gcm wrappingKey reference files := by
  cases hkey : referenceKeyId reference with
  | error e => rw [readPayload, readPayload, hkey]; rfl
  | ok keyId =>
      rw [referenceKeyId_eq_ok hkey] at h
      obtain ⟨hobject, hwrapped⟩ := apply_frame gcm wrappingKey files h
      rw [readPayload, readPayload, hkey]
      simp only [bind, Except.bind, hobject, hwrapped]

/-- A reference tells the name of its file. -/
theorem reference_injective {other : String}
    (h : "encrypted:" ++ keyId = "encrypted:" ++ other) : keyId = other := by
  have htext := congrArg String.toList h
  rw [String.toList_append, String.toList_append] at htext
  exact String.toList_inj.mp (List.append_cancel_left htext)

/-- A purge of a reference that is accepted removes its files. -/
theorem get_purge (h : referenceKeyId ("encrypted:" ++ keyId) = .ok keyId) :
    ((StoreCall.purge ("encrypted:" ++ keyId)).apply gcm wrappingKey files).objects.get keyId =
        none ∧
      ((StoreCall.purge ("encrypted:" ++ keyId)).apply gcm wrappingKey files).keys.get keyId =
        none := by
  unfold StoreCall.apply purgePayload
  dsimp only
  rw [h]
  exact ⟨InsertionMap.get_erase_self _ _, InsertionMap.get_erase_self _ _⟩

/-- No file has a name. -/
def PayloadFiles.Lacks (files : PayloadFiles) (keyId : String) : Prop :=
  files.objects.get keyId = none ∧ files.keys.get keyId = none

/-- Files appear under the name of a write only. -/
theorem lacks_apply (h : files.Lacks keyId) (hwrite : ∀ w, call = .write w → w.keyId ≠ keyId) :
    (call.apply gcm wrappingKey files).Lacks keyId := by
  by_cases htarget : call.target = some ("encrypted:" ++ keyId)
  · cases call with
    | read reference => cases htarget
    | write w => exact absurd (reference_injective (Option.some.inj htarget)) (hwrite w rfl)
    | purge reference =>
        cases Option.some.inj htarget
        unfold StoreCall.apply purgePayload
        dsimp only
        cases hkey : referenceKeyId ("encrypted:" ++ keyId) with
        | error e => exact h
        | ok purged =>
            cases reference_injective (referenceKeyId_eq_ok hkey)
            exact ⟨InsertionMap.get_erase_self _ _, InsertionMap.get_erase_self _ _⟩
  · obtain ⟨hobject, hwrapped⟩ := apply_frame gcm wrappingKey files htarget
    exact ⟨hobject.trans h.1, hwrapped.trans h.2⟩

/-- One more call is applied to the files of those before. -/
theorem filesAfter_append (calls : List StoreCall) (call : StoreCall) :
    filesAfter gcm wrappingKey (calls ++ [call]) =
      call.apply gcm wrappingKey (filesAfter gcm wrappingKey calls) :=
  List.foldl_concat _ _ call calls

/-- A name that no write of a run has is not there. -/
theorem lacks_filesAfter {calls : List StoreCall}
    (h : ∀ w, .write w ∈ calls → w.keyId ≠ keyId) :
    (filesAfter gcm wrappingKey calls).Lacks keyId := by
  induction calls using List.reverseRecOn with
  | nil => exact ⟨rfl, rfl⟩
  | append_singleton calls call ih =>
      rw [filesAfter_append]
      refine lacks_apply (ih fun w hw => h w (List.mem_append_left _ hw)) ?_
      rintro w rfl
      exact h w (List.mem_append_right _ List.mem_cons_self)

end Frame

section Lifetimes

variable {gcm : Gcm} {wrappingKey : List UInt8} {w : WriteCall} {before after : List StoreCall}

variable (gcm wrappingKey) in
/-- The payload of a write in a run can be read until it is purged, and not
afterwards; the reference is accepted by both. -/
structure Lifetime (before : List StoreCall) (w : WriteCall) (after : List StoreCall) : Prop where
  stored : (writePayload gcm wrappingKey w (filesAfter gcm wrappingKey before)).1 =
    .ok w.reference
  purgeable : ∀ files, (purgePayload w.reference files).1 = .ok ()
  readable : ∀ calls, calls <+: after → .purge w.reference ∉ calls →
    readPayload gcm wrappingKey w.reference
      (filesAfter gcm wrappingKey (before ++ .write w :: calls)) = .ok w.plaintext
  gone : ∀ calls, calls <+: after → .purge w.reference ∈ calls → ∃ e,
    readPayload gcm wrappingKey w.reference
      (filesAfter gcm wrappingKey (before ++ .write w :: calls)) = .error e

/-- The random suffixes of a run are distinct. -/
def SuffixesDistinct (calls : List StoreCall) : Prop := (calls.filterMap StoreCall.suffix).Nodup

/-- Writes with different suffixes write different files. -/
theorem keyId_ne_of_distinct (h : SuffixesDistinct (before ++ .write w :: after)) {w' : WriteCall}
    (hw' : .write w' ∈ before ∨ .write w' ∈ after) : w'.keyId ≠ w.keyId := by
  intro hsame
  have hsuffix := suffix_of_keyId_eq hsame
  have hcons : (.write w :: after).filterMap StoreCall.suffix =
      w.draws.suffix :: after.filterMap StoreCall.suffix := rfl
  rw [SuffixesDistinct, List.filterMap_append, hcons] at h
  obtain ⟨hnotMem, -⟩ := List.nodup_cons.mp (List.nodup_middle.mp h)
  apply hnotMem
  rw [← hsuffix, List.mem_append]
  exact hw'.imp (fun h => List.mem_filterMap.mpr ⟨_, h, rfl⟩)
    (fun h => List.mem_filterMap.mpr ⟨_, h, rfl⟩)

/-- A write under a new name succeeds. -/
theorem writePayload_of_lacks {files : PayloadFiles} (h : files.Lacks w.keyId) :
    (writePayload gcm wrappingKey w files).1 = .ok w.reference := by
  rw [writePayload]
  simp only [h.1, h.2, Option.isSome_none, Bool.false_eq_true, if_false]

/-- What was written is read back. -/
theorem readPayload_write {files : PayloadFiles} (h : files.Lacks w.keyId)
    (hkey : referenceKeyId w.reference = .ok w.keyId) :
    readPayload gcm wrappingKey w.reference
      ((StoreCall.write w).apply gcm wrappingKey files) = .ok w.plaintext := by
  rw [readPayload, hkey, StoreCall.apply, writePayload]
  simp only [h.1, h.2, Option.isSome_none, Bool.false_eq_true, if_false, bind, Except.bind,
    InsertionMap.get_set_self, gcm.decrypt_encrypt, Option.elim_some]

/-- Behind a write its files are there until the first purge of its reference
that is accepted. -/
theorem lifetime_of_plain (hdistinct : SuffixesDistinct (before ++ .write w :: after))
    (hkey : referenceKeyId w.reference = .ok w.keyId) :
    Lifetime gcm wrappingKey before w after := by
  have hlacks : (filesAfter gcm wrappingKey before).Lacks w.keyId :=
    lacks_filesAfter fun w' hw' => keyId_ne_of_distinct hdistinct (.inl hw')
  have hrun : ∀ calls, calls <+: after →
      (.purge w.reference ∉ calls → readPayload gcm wrappingKey w.reference
        (filesAfter gcm wrappingKey (before ++ .write w :: calls)) = .ok w.plaintext) ∧
      (.purge w.reference ∈ calls →
        (filesAfter gcm wrappingKey (before ++ .write w :: calls)).Lacks w.keyId) := by
    intro calls
    induction calls using List.reverseRecOn with
    | nil =>
        intro _
        rw [filesAfter_append]
        exact ⟨fun _ => readPayload_write hlacks hkey, fun h => absurd h List.not_mem_nil⟩
    | append_singleton calls call ih =>
        intro hcalls
        obtain ⟨hread, hgone⟩ := ih ((List.prefix_append _ _).trans hcalls)
        have hwrite : ∀ w', call = .write w' → w'.keyId ≠ w.keyId := by
          rintro w' rfl
          exact keyId_ne_of_distinct hdistinct
            (.inr (hcalls.subset (List.mem_append_right _ List.mem_cons_self)))
        rw [← List.cons_append, ← List.append_assoc, filesAfter_append, List.mem_append,
          List.mem_singleton, not_or]
        constructor
        · rintro ⟨hnone, hcall⟩
          rw [readPayload_frame]
          · exact hread hnone
          · intro htarget
            cases call with
            | read reference => cases htarget
            | write w' => exact hwrite w' rfl (reference_injective (Option.some.inj htarget))
            | purge reference =>
                exact hcall (congrArg StoreCall.purge (Option.some.inj htarget)).symm
        · rintro (hpurged | rfl)
          · exact lacks_apply (hgone hpurged) hwrite
          · exact get_purge hkey
  refine ⟨writePayload_of_lacks hlacks, ?_, fun calls hcalls => (hrun calls hcalls).1, ?_⟩
  · intro files
    rw [purgePayload, hkey]
  · intro calls hcalls hpurged
    obtain ⟨hobject, -⟩ := (hrun calls hcalls).2 hpurged
    refine ⟨.noSuchFile, ?_⟩
    rw [readPayload, hkey]
    simp only [bind, Except.bind, hobject]

/-- **Lifetimes.**  Calls on one reference never affect another, and a payload
of a caller lives exactly if no two points come together in its name.  The
writer lets points pass, and the reader takes two of them for a way out of the
directory. -/
theorem lifetime_iff (hcaller : w.FromCaller)
    (hdistinct : SuffixesDistinct (before ++ .write w :: after)) :
    (∀ (call : StoreCall) (reference : String) (files : PayloadFiles),
      call.target ≠ some reference →
        readPayload gcm wrappingKey reference (call.apply gcm wrappingKey files) =
          readPayload gcm wrappingKey reference files) ∧
    (Lifetime gcm wrappingKey before w after ↔ w.IsPlain) := by
  refine ⟨fun call reference files h => readPayload_frame h, ?_, ?_⟩
  · intro h
    rw [← doublePoint_keyId]
    intro hdouble
    have hpurge := h.purgeable ⟨.empty, .empty⟩
    rw [purgePayload, referenceKeyId_reference hcaller, if_pos hdouble] at hpurge
    cases hpurge
  · intro h
    apply lifetime_of_plain hdistinct
    rw [referenceKeyId_reference hcaller, if_neg (doublePoint_keyId.mpr h)]

/-- An encryption that keeps everything in the ciphertext. -/
def plainGcm : Gcm where
  encrypt := fun key nonce plaintext _ => ⟨nonce, key, plaintext⟩
  decrypt := fun key sealed _ => if sealed.tag = key then some sealed.ciphertext else none
  decrypt_encrypt := fun _ _ _ _ => if_pos rfl

/-- Draws of one byte each. -/
def sampleDraws : WriteDraws := ⟨"0123456789abcdef", [1], [2], [3], by decide⟩

/-- A batch of an app. -/
def sampleWrite (tenantId : String) : WriteCall where
  tenantId := tenantId
  appId := "app"
  objectId := "ingest-batch-" ++ "01890000-0000-7000-8000-000000000000"
  plaintext := [42]
  draws := sampleDraws

/-- The write is one of a caller's. -/
theorem sampleWrite_fromCaller {tenantId : String} (h : isKeyId tenantId) :
    (sampleWrite tenantId).FromCaller :=
  ⟨h, show isKeyId "app" = true by decide +kernel,
    .ingestBatch (show isUuid "01890000-0000-7000-8000-000000000000" = true by decide +kernel)⟩

/-- The batch of a tenant with two points in its id is stored and can never be
read or purged, since its own reference is refused. -/
theorem double_point_unreadable :
    ¬ ∀ (gcm : Gcm) (wrappingKey : List UInt8) (before after : List StoreCall) (w : WriteCall),
      w.FromCaller → SuffixesDistinct (before ++ .write w :: after) →
        Lifetime gcm wrappingKey before w after := by
  intro h
  have hlives := h plainGcm [0] [] [] (sampleWrite "acme..games")
    (sampleWrite_fromCaller (by decide +kernel)) (List.nodup_singleton _)
  have hread := hlives.readable [] List.prefix_rfl List.not_mem_nil
  revert hread
  decide +kernel

/-- Another batch of the same app. -/
def secondWrite : WriteCall :=
  { sampleWrite "acme" with plaintext := [7], draws := ⟨"fedcba9876543210", [4], [5], [6], by decide⟩ }

/-- A batch is read, purged and asked for again; the batch written before is
purged behind it. -/
def readsAndPurges : List StoreCall := [
  .read (sampleWrite "acme").reference, .purge (sampleWrite "acme").reference,
  .read (sampleWrite "acme").reference, .purge secondWrite.reference]

/-- A write of a plain tenant is read back until it is purged, and not
afterwards. -/
theorem sample_lifetime :
    Lifetime plainGcm [0] [.write secondWrite] (sampleWrite "acme") readsAndPurges := by
  have hdistinct :
      SuffixesDistinct ([.write secondWrite] ++ .write (sampleWrite "acme") :: readsAndPurges) :=
    show List.Nodup ["fedcba9876543210", "0123456789abcdef"] from by decide
  exact (lifetime_iff (sampleWrite_fromCaller (by decide +kernel)) hdistinct).2.mpr
    ⟨by decide +kernel, by decide +kernel, by decide +kernel, by decide +kernel⟩

end Lifetimes

end OpenMasu
