import Mathlib.Data.List.Forall2
import OpenMasu.JoinedText
import OpenMasu.Reconciliation

/-!
# Reconciliation by keys, whatever their order

An external row and a candidate match when the joined texts of two of their
keys are equal.  The text writes an absent encoding as nothing, so a key
without one can coincide with a key that has one.  The verdict over several
candidates is the verdict of the first, while every other field is sorted.

* `SameKey`, `Coincide` — equal keys, and keys with one text;
* `normalizedKey_eq_iff_or` — equal texts are one or the other;
* `Permuted`, `SameReport` — a row in another order, and what must not change;
* `coincident_key_matches` — a row and a permuted row where this fails;
* `reconciliation_exact_iff` — when a row is matched exactly and in any order.
-/

namespace OpenMasu

section Keys

variable {k k' : MatchingKey}

/-- The encoding and the normalized value in one text. -/
def encodedValue (k : MatchingKey) : String :=
  k.valueEncoding.elim "" (fun e => e.text ++ ":") ++ normalizedValue k

/-- Keys of one type, one encoding and one normalized value. -/
structure SameKey (k k' : MatchingKey) : Prop where
  type : k.type = k'.type
  encoding : k.valueEncoding = k'.valueEncoding
  value : normalizedValue k = normalizedValue k'

/-- Keys of one type whose encodings differ and whose texts do not. -/
structure Coincide (k k' : MatchingKey) : Prop where
  type : k.type = k'.type
  encoding : k.valueEncoding ≠ k'.valueEncoding
  value : encodedValue k = encodedValue k'

/-- The types of keys have different texts. -/
theorem MatchingKeyType.text_injective : Function.Injective MatchingKeyType.text := by
  intro a b h
  cases a <;> cases b <;> first | rfl | exact absurd h (by decide)

/-- A normalized key is its type, a colon and its encoded value. -/
theorem normalizedKey_toList (k : MatchingKey) : (normalizedKey k).toList =
    k.type.text.toList ++ ':' :: (encodedValue k).toList := by
  simp only [normalizedKey, encodedValue, String.toList_append, List.append_assoc]
  rfl

/-- A joined text holds the type in front of its first colon. -/
theorem normalizedKey_eq_iff : normalizedKey k = normalizedKey k' ↔
    k.type = k'.type ∧ encodedValue k = encodedValue k' := by
  have hcolon : ∀ t : MatchingKeyType, t.text.toList.count ':' = 0 := by
    intro t
    cases t <;> decide +kernel
  rw [← String.toList_inj, normalizedKey_toList, normalizedKey_toList]
  constructor
  · intro h
    obtain ⟨htype, hvalue⟩ :=
      JoinedText.append_cons_inj_of_count h ((hcolon k.type).trans (hcolon k'.type).symm)
    exact ⟨MatchingKeyType.text_injective (String.toList_inj.mp htype),
      String.toList_inj.mp hvalue⟩
  · rintro ⟨htype, hvalue⟩
    rw [htype, hvalue]

/-- Keys of one text are equal, or coincide. -/
theorem normalizedKey_eq_iff_or :
    normalizedKey k = normalizedKey k' ↔ SameKey k k' ∨ Coincide k k' := by
  rw [normalizedKey_eq_iff]
  constructor
  · rintro ⟨htype, hvalue⟩
    by_cases hencoding : k.valueEncoding = k'.valueEncoding
    · refine .inl ⟨htype, hencoding, ?_⟩
      rw [encodedValue, encodedValue, hencoding, ← String.toList_inj, String.toList_append,
        String.toList_append] at hvalue
      exact String.toList_inj.mp (List.append_cancel_left hvalue)
    · exact .inr ⟨htype, hencoding, hvalue⟩
  · rintro (h | h)
    · refine ⟨h.type, ?_⟩
      rw [encodedValue, encodedValue, h.encoding, h.value]
    · exact ⟨h.type, h.value⟩

end Keys

section Matching

variable {item : ReconciliationInput} {c : ReconciliationCandidate}

/-- A candidate of the scope has a key that stands in a relation to a key of
the row. -/
def SharesBy (R : MatchingKey → MatchingKey → Prop) (item : ReconciliationInput)
    (c : ReconciliationCandidate) : Prop :=
  c.scope = item.scope ∧ ∃ k ∈ c.matchingKeys, ∃ k' ∈ item.matchingKeys, R k k'

/-- A candidate of the scope has the text of a key of the row. -/
def SharesText : ReconciliationInput → ReconciliationCandidate → Prop :=
  SharesBy fun k k' => normalizedKey k = normalizedKey k'

/-- The test that selects the matched candidates. -/
def isMatch (item : ReconciliationInput) (c : ReconciliationCandidate) : Bool :=
  c.scope = item.scope && c.matchingKeys.any (fun k =>
    (item.matchingKeys.map normalizedKey).contains (normalizedKey k))

/-- A candidate matches where one of its keys is normalized as one of the
item's. -/
theorem isMatch_iff : isMatch item c = true ↔ SharesText item c := by
  simp only [isMatch, Bool.and_eq_true, decide_eq_true_eq, List.any_eq_true, List.contains_iff_mem,
    List.mem_map]
  constructor
  · rintro ⟨hscope, k, hk, k', hk', htext⟩
    exact ⟨hscope, k, hk, k', hk', htext.symm⟩
  · rintro ⟨hscope, k, hk, k', hk', htext⟩
    exact ⟨hscope, k, hk, k', hk', htext.symm⟩

/-- The matched candidates are the matching ones among the candidates. -/
theorem mem_matchedCandidates :
    c ∈ matchedCandidates item ↔ c ∈ item.candidates ∧ SharesText item c := by
  exact List.mem_filter.trans (and_congr_right fun _ => isMatch_iff)

/-- The candidates that are matched are those that share a key. -/
def MatchesExactly (item : ReconciliationInput) : Prop :=
  ∀ c ∈ item.candidates, c ∈ matchedCandidates item ↔ SharesBy SameKey item c

/-- A candidate whose key coincides with one of the row shares a key too. -/
def NoCoincidence (item : ReconciliationInput) : Prop :=
  ∀ c ∈ item.candidates, SharesBy Coincide item c → SharesBy SameKey item c

/-- Keys share a text where they are the same or coincide by chance. -/
theorem sharesText_iff : SharesText item c ↔ SharesBy SameKey item c ∨ SharesBy Coincide item c := by
  constructor
  · rintro ⟨hscope, k, hk, k', hk', htext⟩
    exact (normalizedKey_eq_iff_or.mp htext).imp (fun h => ⟨hscope, k, hk, k', hk', h⟩)
      (fun h => ⟨hscope, k, hk, k', hk', h⟩)
  · rintro (⟨hscope, k, hk, k', hk', h⟩ | ⟨hscope, k, hk, k', hk', h⟩)
    · exact ⟨hscope, k, hk, k', hk', normalizedKey_eq_iff_or.mpr (.inl h)⟩
    · exact ⟨hscope, k, hk, k', hk', normalizedKey_eq_iff_or.mpr (.inr h)⟩

/-- Matching is exact where no two different keys coincide. -/
theorem matchesExactly_iff : MatchesExactly item ↔ NoCoincidence item := by
  constructor
  · intro h c hc hcoincide
    exact (h c hc).mp (mem_matchedCandidates.mpr ⟨hc, sharesText_iff.mpr (.inr hcoincide)⟩)
  · intro h c hc
    rw [mem_matchedCandidates, and_iff_right hc, sharesText_iff]
    exact ⟨fun hshares => hshares.elim id (h c hc), .inl⟩

end Matching

section Order

variable {item item' : ReconciliationInput} {c c' : ReconciliationCandidate}

/-- The candidate without its keys. -/
def ReconciliationCandidate.face (c : ReconciliationCandidate) : ReconciliationCandidate :=
  { c with matchingKeys := [] }

/-- The same candidate with its keys in another order. -/
structure KeysPermuted (c c' : ReconciliationCandidate) : Prop where
  keys : c.matchingKeys.Perm c'.matchingKeys
  face : c.face = c'.face

/-- The same row with its keys, its candidates and their keys in another
order. -/
structure Permuted (item item' : ReconciliationInput) : Prop where
  keys : item.matchingKeys.Perm item'.matchingKeys
  candidates : ∃ l, item.candidates.Perm l ∧ List.Forall₂ KeysPermuted l item'.candidates
  rest : { item with matchingKeys := [], candidates := [] } =
    { item' with matchingKeys := [], candidates := [] }

/-- Two reports with the same verdict and evidence. -/
structure SameReport (r r' : Reconciliation) : Prop where
  reason : r.differenceReasonCode = r'.differenceReasonCode
  freshness : r.freshness = r'.freshness
  candidates : r.candidates = r'.candidates
  exclusions : r.exclusions = r'.exclusions
  windows : r.windows = r'.windows
  joins : r.joins = r'.joins

/-- The order of keys and candidates does not show. -/
def OrderFree (item : ReconciliationInput) : Prop :=
  ∀ item', Permuted item item' → SameReport (reconciliationResult item) (reconciliationResult item')

/-- The verdict over one candidate. -/
def candidateVerdict (c : ReconciliationCandidate) : DifferenceReason :=
  if c.excluded then .candidateExcluded
  else if c.windowStatus = .outOfWindow then .windowMismatch
  else if c.freshness = .stale then .freshnessMismatch
  else .matched

/-- A row is one to one. -/
def isOneToOne (item : ReconciliationInput) : Bool :=
  item.matchingKeys.any (fun k => k.cardinality = .oneToOne)

/-- The candidates that share a text agree on what the verdict reads of the
first of them. -/
structure CandidatesAgree (item : ReconciliationInput) : Prop where
  freshness : ∀ c ∈ item.candidates, ∀ c' ∈ item.candidates,
    SharesText item c → SharesText item c' → c.freshness = c'.freshness
  verdict : item.privacyRedaction = false → isOneToOne item = false →
    ∀ c ∈ item.candidates, ∀ c' ∈ item.candidates,
      SharesText item c → SharesText item c' → candidateVerdict c = candidateVerdict c'

/-- A row with a candidate that shares a text has keys. -/
theorem matchingKeys_ne_nil (h : SharesText item c) : item.matchingKeys.isEmpty = false := by
  obtain ⟨-, k, -, k', hk', -⟩ := h
  rw [List.isEmpty_eq_false_iff]
  exact List.ne_nil_of_mem hk'

/-- The verdict over several candidates. -/
theorem differenceReason_of_cons {rest : List ReconciliationCandidate}
    (h : matchedCandidates item = c :: rest) (hprivacy : item.privacyRedaction = false) :
    differenceReason item =
      if !rest.isEmpty && isOneToOne item then .joinKeyAmbiguous else candidateVerdict c := by
  have hshares : SharesText item c :=
    (mem_matchedCandidates.mp (h ▸ List.mem_cons_self)).2
  rw [differenceReason, hprivacy, h]
  simp only [Bool.false_eq_true, if_false, matchingKeys_ne_nil hshares]
  rfl

/-- The faces of the matched candidates keep to the order of the candidates. -/
theorem matched_faces_perm (h : Permuted item item') :
    ((matchedCandidates item).map ReconciliationCandidate.face).Perm
      ((matchedCandidates item').map ReconciliationCandidate.face) := by
  obtain ⟨l, hperm, hfaces⟩ := h.candidates
  have hscope : item.scope = item'.scope := (congrArg ReconciliationInput.scope h.rest :)
  have hshares : ∀ {c c'}, KeysPermuted c c' → (SharesText item c ↔ SharesText item' c') := by
    intro c c' hc
    have hsame : c.scope = c'.scope := (congrArg ReconciliationCandidate.scope hc.face :)
    simp only [SharesText, SharesBy, hscope, hsame, hc.keys.mem_iff, h.keys.mem_iff]
  have hmatched : List.Forall₂ KeysPermuted (l.filter (isMatch item)) (matchedCandidates item') :=
    List.rel_filter (R := KeysPermuted) (p := isMatch item) (q := isMatch item')
      (fun _ _ hc => isMatch_iff.trans ((hshares hc).trans isMatch_iff.symm)) hfaces
  have hsame : (l.filter (isMatch item)).map ReconciliationCandidate.face =
      (matchedCandidates item').map ReconciliationCandidate.face := by
    rw [← List.forall₂_eq_eq_eq, List.forall₂_map_left_iff, List.forall₂_map_right_iff]
    exact hmatched.imp fun _ _ hc => hc.face
  rw [← hsame]
  exact (hperm.filter _).map _

/-- A field that is sorted by a key of its own does not show the order. -/
theorem sorted_map_eq {α κ : Type} [LinearOrder κ] {key : α → κ} (hkey : Function.Injective key)
    {l l' : List α} (h : l.Perm l') : KeyedSort.sortOn key l = KeyedSort.sortOn key l' :=
  KeyedSort.sortOn_eq_of_perm key h fun _ _ _ _ heq => hkey heq

/-- The joined keys are sorted texts. -/
theorem sortedKeys_map (keys : List MatchingKey) :
    (KeyedSort.sortOn (fun k => codeUnits (normalizedKey k)) keys).map normalizedKey =
      sortTexts (keys.map normalizedKey) :=
  KeyedSort.map_sortOn normalizedKey codeUnits keys

/-- The sort keys of exclusions tell an absent one from every text. -/
theorem exclusionKey_injective : Function.Injective
    (fun e : Option String => e.elim [1] (fun s => 0 :: codeUnits s)) := by
  intro a b h
  cases a with
  | none =>
      cases b with
      | none => rfl
      | some t => cases h
  | some s =>
      cases b with
      | none => cases h
      | some t => exact congrArg some (codeUnits_injective (List.cons.inj h).2)

/-- The sorted fields never show the order. -/
theorem sorted_fields (h : Permuted item item') :
    (reconciliationResult item).candidates = (reconciliationResult item').candidates ∧
      (reconciliationResult item).exclusions = (reconciliationResult item').exclusions ∧
      (reconciliationResult item).windows = (reconciliationResult item').windows ∧
      (reconciliationResult item).joins = (reconciliationResult item').joins := by
  have hfaces := matched_faces_perm h
  have hmap : ∀ {β : Type} (f : ReconciliationCandidate → β), (∀ c, f c.face = f c) →
      ((matchedCandidates item).map f).Perm ((matchedCandidates item').map f) := by
    intro β f hf
    have hmapped := hfaces.map f
    simp only [List.map_map, Function.comp_def, hf] at hmapped
    exact hmapped
  have hexcluded : (((matchedCandidates item).filter (·.excluded)).map (·.exclusionReason)).Perm
      (((matchedCandidates item').filter (·.excluded)).map (·.exclusionReason)) := by
    have hfiltered := (hfaces.filter (·.excluded)).map (·.exclusionReason)
    simp only [List.filter_map, List.map_map, Function.comp_def] at hfiltered
    exact hfiltered
  have hjoined : (KeyedSort.sortOn (fun k => codeUnits (normalizedKey k)) item.matchingKeys).map
      normalizedKey = (KeyedSort.sortOn (fun k => codeUnits (normalizedKey k))
        item'.matchingKeys).map normalizedKey := by
    rw [sortedKeys_map, sortedKeys_map]
    exact sorted_map_eq codeUnits_injective (h.keys.map _)
  refine ⟨sorted_map_eq codeUnits_injective (hmap _ fun _ => rfl),
    sorted_map_eq exclusionKey_injective hexcluded,
    sorted_map_eq codeUnits_injective (hmap _ fun _ => rfl), ?_⟩
  unfold reconciliationResult
  dsimp only
  rw [hjoined]
  exact sorted_map_eq codeUnits_injective (hmap _ fun _ => rfl)

/-- With candidates that agree, the first one decides what any other would. -/
theorem orderFree_of_agree (hagree : CandidatesAgree item) : OrderFree item := by
  intro item' h
  obtain ⟨hcandidates, hexclusions, hwindows, hjoins⟩ := sorted_fields h
  have hfaces := matched_faces_perm h
  have hprivacy : item.privacyRedaction = item'.privacyRedaction :=
    (congrArg ReconciliationInput.privacyRedaction h.rest :)
  have hmodeled : item.providerModeledWithoutCandidate = item'.providerModeledWithoutCandidate :=
    (congrArg ReconciliationInput.providerModeledWithoutCandidate h.rest :)
  have hdefault : item.freshness = item'.freshness :=
    (congrArg ReconciliationInput.freshness h.rest :)
  have hany : ∀ p : MatchingKey → Bool, item.matchingKeys.any p = item'.matchingKeys.any p :=
    fun p => h.keys.any_eq
  have hempty : item.matchingKeys.isEmpty = item'.matchingKeys.isEmpty := h.keys.isEmpty_eq
  suffices hboth : differenceReason item = differenceReason item' ∧
      (matchedCandidates item).head?.elim item.freshness (·.freshness) =
        (matchedCandidates item').head?.elim item'.freshness (·.freshness) from
    ⟨hboth.1, hboth.2, hcandidates, hexclusions, hwindows, hjoins⟩
  cases hmatched : matchedCandidates item with
  | nil =>
      rw [hmatched, List.map_nil] at hfaces
      have hmatched' := List.map_eq_nil_iff.mp hfaces.nil_eq.symm
      rw [hmatched', differenceReason, differenceReason, hmatched, hmatched', hprivacy, hmodeled,
        hempty, hany]
      exact ⟨rfl, hdefault⟩
  | cons first rest =>
      cases hmatched' : matchedCandidates item' with
      | nil =>
          rw [hmatched', hmatched, List.map_nil] at hfaces
          cases hfaces.eq_nil
      | cons first' rest' =>
          have hrest : rest.isEmpty = rest'.isEmpty := by
            have hlength := hfaces.length_eq
            rw [hmatched, hmatched'] at hlength
            simp only [List.length_map, List.length_cons, Nat.add_right_cancel_iff] at hlength
            rw [Bool.eq_iff_iff, List.isEmpty_iff_length_eq_zero, List.isEmpty_iff_length_eq_zero,
              hlength]
          obtain ⟨d, hd, hface⟩ : ∃ d ∈ matchedCandidates item, d.face = first'.face := by
            rw [← List.mem_map, hfaces.mem_iff, hmatched']
            exact List.mem_cons_self
          obtain ⟨hfirst, hfirstShares⟩ :=
            mem_matchedCandidates.mp (hmatched ▸ List.mem_cons_self : first ∈ _)
          obtain ⟨hdMem, hdShares⟩ := mem_matchedCandidates.mp hd
          have hverdictFace : candidateVerdict d = candidateVerdict first' :=
            (congrArg candidateVerdict hface :)
          constructor
          · cases hredacted : item.privacyRedaction with
            | true =>
                rw [differenceReason, differenceReason, ← hprivacy, hredacted]
                rfl
            | false =>
                rw [differenceReason_of_cons hmatched hredacted,
                  differenceReason_of_cons hmatched' (hprivacy.symm.trans hredacted), ← hrest,
                  isOneToOne, isOneToOne, ← hany]
                cases hone : item.matchingKeys.any (fun k => k.cardinality = .oneToOne) with
                | false =>
                    rw [Bool.and_false, hagree.verdict hredacted hone first hfirst d hdMem
                      hfirstShares hdShares, hverdictFace]
                | true =>
                    cases rest with
                    | cons next rest => rfl
                    | nil =>
                        rw [hmatched, List.mem_singleton] at hd
                        rw [← hd, hverdictFace]
          · exact (hagree.freshness first hfirst d hdMem hfirstShares hdShares).trans
              (congrArg ReconciliationCandidate.freshness hface :)

/-- Any matched candidate comes first in some order. -/
theorem exists_order (hc : c ∈ item.candidates) (hshares : SharesText item c) :
    ∃ item' rest, Permuted item item' ∧ matchedCandidates item' = c :: rest ∧
      item'.matchingKeys = item.matchingKeys := by
  obtain ⟨before, after, hsplit⟩ := List.append_of_mem hc
  refine ⟨{ item with candidates := c :: (before ++ after) },
    (before ++ after).filter (isMatch item), ⟨.rfl, ⟨c :: (before ++ after), ?_, ?_⟩, rfl⟩, ?_, rfl⟩
  · rw [hsplit]
    exact List.perm_middle
  · exact List.forall₂_same.mpr fun _ _ => ⟨.rfl, rfl⟩
  · exact List.filter_cons_of_pos (isMatch_iff.mpr hshares)

/-- Where the order does not show, the candidates agree. -/
theorem agree_of_orderFree (h : OrderFree item) : CandidatesAgree item where
  freshness := by
    intro c hc c' hc' hshares hshares'
    obtain ⟨item₁, rest₁, hperm₁, hmatched₁, -⟩ := exists_order hc hshares
    obtain ⟨item₂, rest₂, hperm₂, hmatched₂, -⟩ := exists_order hc' hshares'
    have hfreshness := (h item₁ hperm₁).freshness.symm.trans (h item₂ hperm₂).freshness
    simp only [reconciliationResult, hmatched₁, hmatched₂, List.head?_cons, Option.elim_some]
      at hfreshness
    exact hfreshness
  verdict := by
    intro hprivacy hone c hc c' hc' hshares hshares'
    obtain ⟨item₁, rest₁, hperm₁, hmatched₁, hkeys₁⟩ := exists_order hc hshares
    obtain ⟨item₂, rest₂, hperm₂, hmatched₂, hkeys₂⟩ := exists_order hc' hshares'
    have hreason : differenceReason item₁ = differenceReason item₂ :=
      (h item₁ hperm₁).reason.symm.trans (h item₂ hperm₂).reason
    have hprivacy₁ : item₁.privacyRedaction = false :=
      (congrArg ReconciliationInput.privacyRedaction hperm₁.rest :).symm.trans hprivacy
    have hprivacy₂ : item₂.privacyRedaction = false :=
      (congrArg ReconciliationInput.privacyRedaction hperm₂.rest :).symm.trans hprivacy
    rw [differenceReason_of_cons hmatched₁ hprivacy₁, differenceReason_of_cons hmatched₂ hprivacy₂,
      isOneToOne, isOneToOne, hkeys₁, hkeys₂] at hreason
    rw [isOneToOne] at hone
    simpa only [hone, Bool.and_false, Bool.false_eq_true, if_false] using hreason

end Order

section Law

/-- A row is matched exactly on its keys and in any order of keys and
candidates if and only if no candidate is matched by a coincidence alone and
the candidates that share a text agree. -/
theorem reconciliation_exact_iff (item : ReconciliationInput) :
    (MatchesExactly item ∧ OrderFree item) ↔ (NoCoincidence item ∧ CandidatesAgree item) :=
  and_congr matchesExactly_iff ⟨agree_of_orderFree, orderFree_of_agree⟩

/-- A plain key of one type. -/
def sampleKey (type : MatchingKeyType) (value : String) (encoding : Option Identifier) :
    MatchingKey where
  type := type
  value := value
  scope := "tenant_app"
  normalization := .identity
  cardinality := .oneToMany
  «protected» := false
  valueEncoding := encoding

def sampleCandidate (id : Identifier) (key : MatchingKey) (excluded : Bool) :
    ReconciliationCandidate where
  candidateId := id
  tenantId := .named "tenant"
  appId := .named "app"
  matchingKeys := [key]
  windowStatus := .inWindow
  freshness := .current
  excluded := excluded

def sampleRow (key : MatchingKey) (candidates : List ReconciliationCandidate) :
    ReconciliationInput where
  reconciliationId := "row"
  tenantId := .named "tenant"
  appId := .named "app"
  inputSnapshotId := "input"
  externalSnapshotId := "external"
  matchingKeys := [key]
  candidates := candidates
  freshness := .current

/-- A key without an encoding whose value reads like an encoded one. -/
def coincidentRow : ReconciliationInput :=
  sampleRow (sampleKey .externalRowId "plain:7" none) [sampleCandidate ⟨"candidate", by decide⟩
    (sampleKey .externalRowId "7" (some ⟨"plain", by decide⟩)) false]

def excludedCandidate : ReconciliationCandidate :=
  sampleCandidate ⟨"excluded", by decide⟩ (sampleKey .campaignId "summer" none) true

def includedCandidate : ReconciliationCandidate :=
  sampleCandidate ⟨"included", by decide⟩ (sampleKey .campaignId "summer" none) false

/-- A campaign with an excluded candidate and another one. -/
def campaignRow (candidates : List ReconciliationCandidate) : ReconciliationInput :=
  sampleRow (sampleKey .campaignId "summer" none) candidates

/-- A key whose plain value reads like an encoded one matches the key so
encoded, and with an excluded and an included candidate the order decides which
reason is reported. -/
theorem coincident_key_matches : ¬ MatchesExactly coincidentRow ∧
    ¬ OrderFree (campaignRow [excludedCandidate, includedCandidate]) := by
  constructor
  · intro h
    have hmatched := (h _ List.mem_cons_self).mp
      (mem_matchedCandidates.mpr ⟨List.mem_cons_self, isMatch_iff.mp (by decide +kernel)⟩)
    obtain ⟨-, k, hk, k', hk', hsame⟩ := hmatched
    cases List.mem_singleton.mp hk
    cases List.mem_singleton.mp hk'
    cases hsame.encoding
  · intro h
    have hreason := (h (campaignRow [includedCandidate, excludedCandidate])
      ⟨.rfl, ⟨_, .swap _ _ _, List.forall₂_same.mpr fun _ _ => ⟨.rfl, rfl⟩⟩, rfl⟩).reason
    revert hreason
    decide +kernel

end Law

end OpenMasu
