import OpenMasu.ReferrerRoundTrip
import Mathlib.Algebra.Order.BigOperators.Group.List

/-!
# The budget of a referrer

A referrer carries a deep link if it stays within a budget.  A link is created
only if its longest referrer does, but the values the creation tries out
consist of characters that stand for themselves, and a tilde is written as
three characters.

* `encodedSize`, `carriedSize` — what an encoded text, and a referrer, take;
* `build_eq` — the referrer that is built;
* `decodeInstallReferrer` — a referrer is read back;
* `carriedSize_le_probe` — values without a tilde stay below those tried out;
* `referrerLaw_iff` — when a link carries its deep link.
-/

namespace OpenMasu

section Sizes

/-- A character of a deep-link value or a parameter. -/
def isPathChar (c : Char) : Bool := isUrlChar c || c = '/'

/-- The length of a text when it is encoded: a slash and a tilde take three
characters. -/
def encodedSize (s : String) : Nat := s.length + 2 * (s.toList.count '/' + s.toList.count '~')

/-- What a parameter takes in a referrer, behind an ampersand. -/
def parameterSize (p : String × String) : Nat := 6 + p.1.length + encodedSize p.2

/-- The length of a referrer that carries a deep link. -/
def carriedSize (clickId value : String) (params : List (String × String)) : Nat :=
  14 + clickId.length + encodedSize value + (params.map parameterSize).sum

/-- Of the characters of a path two are encoded in three. -/
theorem length_encodeChar {c : Char} (hc : isPathChar c = true) :
    (FormEncoding.encodeChar c).length =
      1 + 2 * ((if c = '/' then 1 else 0) + (if c = '~' then 1 else 0)) := by
  by_cases hslash : c = '/'
  · rw [hslash]
    decide
  · by_cases htilde : c = '~'
    · rw [htilde]
      decide
    · have hplain : FormEncoding.isPlain c = true := by
        simp only [isPathChar, isUrlChar, FormEncoding.isPlain, Bool.or_eq_true,
          decide_eq_true_eq, hslash, htilde] at hc ⊢
        tauto
      rw [FormEncoding.encodeChar, if_pos hplain, if_neg hslash, if_neg htilde]
      rfl

/-- So a path grows by two for each slash and each tilde. -/
theorem length_flatMap_encodeChar (cs : List Char) (h : cs.all isPathChar = true) :
    (cs.flatMap FormEncoding.encodeChar).length = cs.length + 2 * (cs.count '/' + cs.count '~') := by
  induction cs with
  | nil => rfl
  | cons c cs ih =>
      rw [List.all_cons, Bool.and_eq_true] at h
      rw [List.flatMap_cons, List.length_append, length_encodeChar h.1, ih h.2, List.count_cons,
        List.count_cons, List.length_cons]
      simp only [beq_iff_eq]
      omega

/-- **The growth of an encoded text.**  A character of a path keeps its length,
but for the few that are escaped to three. -/
theorem length_encode {s : String} (h : s.toList.all isPathChar = true) :
    (FormEncoding.encode s).length = encodedSize s := by
  rw [FormEncoding.encode, length_flatMap_encodeChar _ h, encodedSize, String.length_toList]

/-- A text without slashes and tildes does not grow. -/
theorem encodedSize_of_notMem {s : String} (hslash : '/' ∉ s.toList) (htilde : '~' ∉ s.toList) :
    encodedSize s = s.length := by
  rw [encodedSize, List.count_eq_zero.mpr hslash, List.count_eq_zero.mpr htilde, Nat.add_zero]

/-- The length of a text of pairs. -/
theorem length_text (p : String × String) (ps : List (String × String)) :
    (FormEncoding.text (p :: ps)).length =
      (FormEncoding.pair p).length + (ps.map fun q => 1 + (FormEncoding.pair q).length).sum := by
  induction ps generalizing p with
  | nil => simp [FormEncoding.text, List.intercalate]
  | cons q ps ih =>
      have hsplit : (FormEncoding.text (p :: q :: ps)).length =
          (FormEncoding.pair p).length + 1 + (FormEncoding.text (q :: ps)).length := by
        simp only [FormEncoding.text, String.length_ofList, List.map_cons,
          List.intercalate_cons_cons, List.length_append, List.length_singleton]
      rw [hsplit, ih, List.map_cons, List.sum_cons]
      omega

/-- The length of a pair that is encoded. -/
theorem length_pair {name value : String} (hname : name.toList.all isPathChar = true)
    (hvalue : value.toList.all isPathChar = true) :
    (FormEncoding.pair (name, value)).length = 1 + encodedSize name + encodedSize value := by
  rw [FormEncoding.pair, List.length_append, List.length_cons, length_encode hname,
    length_encode hvalue]
  omega

end Sizes

section Characters

/-- The characters of a name are encoded as they are. -/
theorem isUrlChar_of_nameChar {c : Char} (h : (c.isLower || c.isDigit || c = '_') = true) :
    isUrlChar c = true ∧ c ≠ '/' ∧ c ≠ '~' := by
  have hslash : c ≠ '/' := by
    rintro rfl
    exact absurd h (by decide)
  have htilde : c ≠ '~' := by
    rintro rfl
    exact absurd h (by decide)
  refine ⟨?_, hslash, htilde⟩
  simp only [Bool.or_eq_true, decide_eq_true_eq] at h
  simp only [isUrlChar, Char.isAlphanum, isAlpha_eq, Bool.or_eq_true, decide_eq_true_eq]
  tauto

/-- The characters of a parameter name stand for themselves. -/
theorem nameChars {name : List Char} (h : isParameterName name = true) :
    name.all isPathChar = true ∧ '/' ∉ name ∧ '~' ∉ name := by
  have hchars : ∀ c ∈ name, (c.isLower || c.isDigit || c = '_') = true := by
    cases name with
    | nil => exact fun c hc => absurd hc List.not_mem_nil
    | cons first rest =>
        rw [isParameterName, ofClass, Bool.and_eq_true, Bool.and_eq_true] at h
        intro c hc
        rcases List.mem_cons.mp hc with rfl | hrest
        · rw [h.1, Bool.true_or, Bool.true_or]
        · exact List.all_eq_true.mp h.2.2 c hrest
  refine ⟨List.all_eq_true.mpr fun c hc => ?_, fun hc => ?_, fun hc => ?_⟩
  · rw [isPathChar, (isUrlChar_of_nameChar (hchars c hc)).1, Bool.true_or]
  · exact (isUrlChar_of_nameChar (hchars _ hc)).2.1 rfl
  · exact (isUrlChar_of_nameChar (hchars _ hc)).2.2 rfl

/-- The characters of a URL are those of a path. -/
theorem all_isPathChar_of_ofClass {cs : List Char} {least most : Nat}
    (h : ofClass isUrlChar least most cs = true) : cs.all isPathChar = true := by
  rw [ofClass, Bool.and_eq_true] at h
  refine List.all_eq_true.mpr fun c hc => ?_
  rw [isPathChar, List.all_eq_true.mp h.2 c hc, Bool.true_or]

/-- A character between slashes belongs to a part. -/
theorem mem_slashParts {c : Char} {cs : List Char} (hc : c ∈ cs) :
    c = '/' ∨ ∃ part ∈ slashParts cs, c ∈ part := by
  induction cs with
  | nil => exact absurd hc List.not_mem_nil
  | cons d cs ih =>
      rw [slashParts]
      by_cases hd : d = '/'
      · rw [if_pos hd]
        rcases List.mem_cons.mp hc with h | h
        · exact .inl (h.trans hd)
        · refine (ih h).imp_right fun ⟨part, hpart, hmem⟩ => ⟨part, List.mem_cons_of_mem _ hpart, hmem⟩
      · rw [if_neg hd]
        cases hparts : slashParts cs with
        | nil =>
            rcases List.mem_cons.mp hc with h | h
            · exact .inr ⟨[d], List.mem_cons_self, List.mem_singleton.mpr h⟩
            · rcases ih h with hslash | ⟨part, hpart, _⟩
              · exact .inl hslash
              · rw [hparts] at hpart
                exact absurd hpart List.not_mem_nil
        | cons part parts =>
            rcases List.mem_cons.mp hc with h | h
            · exact .inr ⟨d :: part, List.mem_cons_self, h ▸ List.mem_cons_self⟩
            · rcases ih h with hslash | ⟨part', hpart', hmem⟩
              · exact .inl hslash
              · rw [hparts] at hpart'
                rcases List.mem_cons.mp hpart' with rfl | hpart'
                · exact .inr ⟨d :: part', List.mem_cons_self, List.mem_cons_of_mem _ hmem⟩
                · exact .inr ⟨part', List.mem_cons_of_mem _ hpart', hmem⟩

/-- A deep link path has characters of a path only. -/
theorem pathChars {value : List Char} (h : isDeepLinkPath value = true) :
    value.all isPathChar = true := by
  rw [isDeepLinkPath.eq_def] at h
  split at h
  next cs =>
    rw [Bool.and_eq_true] at h
    refine List.all_eq_true.mpr fun c hc => ?_
    rcases List.mem_cons.mp hc with rfl | hc
    · decide
    · rcases mem_slashParts hc with rfl | ⟨part, hpart, hmem⟩
      · decide
      · exact List.all_eq_true.mp
          (all_isPathChar_of_ofClass (List.all_eq_true.mp h.2 part hpart)) c hmem
  next => exact absurd h Bool.false_ne_true

end Characters

section Referrers

/-- The decoded pairs of a text: parts without a text are dropped, and a part
without an equals sign is a name. -/
def urlSearchParams (D : FormEncoding.Decoder) (value : String) : Option (List (String × String)) :=
  let cs := if value.toList.head? = some '?' then value.toList.tail else value.toList
  ((cs.splitOn '&').filter fun part => part ≠ []).mapM fun part =>
    FormEncoding.decodePair D (part.takeWhile (· ≠ '='), (part.dropWhile (· ≠ '=')).tail)

/-- `decodeInstallReferrer` -/
def decodeInstallReferrer (D : FormEncoding.Decoder) (value : String) :
    Option (InsertionMap String String) :=
  (urlSearchParams D value).map InsertionMap.ofList

/-- A parameter that was bound is a declared one, of the right form. -/
theorem mem_bindDeepLinkParameters {source : List (String × String)} {declared : List String}
    {p : String × String} (hp : p ∈ bindDeepLinkParameters source declared) :
    p.1 ∈ declared ∧ ofClass isUrlChar 1 64 p.2.toList = true := by
  have hget := InsertionMap.get_of_mem hp
  have hmem := InsertionMap.mem_of_get_ofList hget
  obtain ⟨q, _, hq⟩ := List.mem_filterMap.mp hmem
  split at hq
  next name _ =>
    split at hq
    next hcheck =>
      rw [Bool.and_eq_true, List.contains_iff_mem] at hcheck
      obtain ⟨hname, hvalue⟩ := Prod.mk.inj (Option.some.inj hq)
      rw [← hname, ← hvalue]
      exact hcheck
    next => exact absurd hq (by simp)
  next => exact absurd hq (by simp)

/-- A parameter is bound once. -/
theorem nodup_bindDeepLinkParameters (source : List (String × String)) (declared : List String) :
    ((bindDeepLinkParameters source declared).map Prod.fst).Nodup :=
  InsertionMap.nodup _

/-- The size of a parameter is that of its pair, with the mark before it. -/
theorem length_pair_marked {p : String × String} (h : isDeepLinkParameter p = true) :
    1 + (FormEncoding.pair (marked p)).length = parameterSize p := by
  rw [isDeepLinkParameter, Bool.and_eq_true] at h
  obtain ⟨hchars, hslash, htilde⟩ := nameChars h.1
  have hmark : ("dlp_" ++ p.1).toList = ['d', 'l', 'p', '_'] ++ p.1.toList := by
    rw [String.toList_append]
    rfl
  have hname : ("dlp_" ++ p.1).toList.all isPathChar = true := by
    rw [hmark, List.all_append, hchars]
    decide
  have hsize : encodedSize ("dlp_" ++ p.1) = 4 + p.1.length := by
    rw [encodedSize_of_notMem, String.length_append]
    · rfl
    · rw [hmark]
      simpa using hslash
    · rw [hmark]
      simpa using htilde
  rw [marked, length_pair hname (all_isPathChar_of_ofClass h.2), hsize, parameterSize]
  omega

/-- The characters of a slug are encoded as they are. -/
theorem isPathChar_of_isSlugChar {c : Char} (h : isSlugChar c = true) :
    isPathChar c = true ∧ c ≠ '/' ∧ c ≠ '~' := by
  refine ⟨?_, ?_, ?_⟩
  · simp only [isSlugChar, Bool.or_eq_true, decide_eq_true_eq] at h
    simp only [isPathChar, isUrlChar, Bool.or_eq_true, decide_eq_true_eq]
    tauto
  · rintro rfl
    exact absurd h (by decide)
  · rintro rfl
    exact absurd h (by decide)

/-- The characters of a click id stand for themselves. -/
theorem length_encode_clickId {clickId : String} (h : isClickIdText clickId.toList = true) :
    (FormEncoding.encode clickId).length = clickId.length := by
  rw [isClickIdText, ofClass, Bool.and_eq_true] at h
  have hchars : ∀ c ∈ clickId.toList, isPathChar c = true ∧ c ≠ '/' ∧ c ≠ '~' :=
    fun c hc => isPathChar_of_isSlugChar (List.all_eq_true.mp h.2 c hc)
  rw [length_encode (List.all_eq_true.mpr fun c hc => (hchars c hc).1)]
  exact encodedSize_of_notMem (fun hc => (hchars _ hc).2.1 rfl) fun hc => (hchars _ hc).2.2 rfl

/-- **The length of a referrer that carries a deep link**, from the lengths of
its fields. -/
theorem length_carried {clickId value : String} {params : List (String × String)}
    (hclick : isClickIdText clickId.toList = true) (hvalue : isDeepLinkPath value.toList = true)
    (hparams : ∀ p ∈ params, isDeepLinkParameter p = true) :
    (FormEncoding.text (carriedPairs clickId value params)).length =
      carriedSize clickId value params := by
  have hmarked : ((KeyedSort.sortOn parameterOrder params).map marked).map
      (fun q => 1 + (FormEncoding.pair q).length) =
        (KeyedSort.sortOn parameterOrder params).map parameterSize := by
    rw [List.map_map]
    exact List.map_congr_left fun p hp =>
      length_pair_marked (hparams p ((KeyedSort.mem_sortOn parameterOrder).mp hp))
  have hsum : ((KeyedSort.sortOn parameterOrder params).map parameterSize).sum =
      (params.map parameterSize).sum :=
    ((KeyedSort.perm_sortOn parameterOrder params).map parameterSize).sum_eq
  have hversion : (FormEncoding.pair ("omv", "1")).length = 5 := by decide
  have hcid : (FormEncoding.pair ("cid", clickId)).length = 4 + clickId.length := by
    have hname : (FormEncoding.encode "cid").length = 3 := by decide
    rw [FormEncoding.pair, List.length_append, List.length_cons, length_encode_clickId hclick,
      hname]
    omega
  have hdl : (FormEncoding.pair ("dl", value)).length = 3 + encodedSize value := by
    have hname : encodedSize "dl" = 2 := by decide
    have hchars : "dl".toList.all isPathChar = true := by decide
    rw [length_pair hchars (pathChars hvalue), hname]
  rw [carriedPairs, minimalPairs, List.cons_append, List.cons_append, List.nil_append, length_text,
    List.map_cons, List.map_cons, List.sum_cons, List.sum_cons, hmarked, hsum, hversion, hcid, hdl,
    carriedSize]
  omega

/-- **The referrer that is built.**  The link is carried where it fits the
budget, and is left out as a whole otherwise. -/
theorem build_eq {clickId value : String} {params : List (String × String)} {maximum : Nat}
    (hclick : isClickIdText clickId.toList = true) (hvalue : isDeepLinkValue value = true)
    (hparams : ∀ p ∈ params, isDeepLinkParameter p = true) :
    buildDeferredReferrer clickId (some value) params maximum =
      .ok (if carriedSize clickId value params ≤ maximum then
        (FormEncoding.text (carriedPairs clickId value params), .carried)
      else (FormEncoding.text (minimalPairs clickId), .omittedLength)) := by
  have hvalid := hvalue
  simp only [isDeepLinkValue, Bool.and_eq_true, decide_eq_true_eq] at hvalid
  have hpath : isDeepLinkPath value.toList = true := hvalid.1.2
  have hne : value ≠ "" := by
    rintro rfl
    exact absurd hpath (by decide)
  have hassert : assertDeepLinkValue value = .ok value := by
    rw [assertDeepLinkValue, demand, if_pos]
    · rfl
    · simp only [Bool.and_eq_true, decide_eq_true_eq]
      exact ⟨⟨hvalid.1.1, hvalid.2⟩, hpath⟩
  have hencode : ∀ extras, encodeInstallReferrer clickId extras =
      .ok (FormEncoding.text (minimalPairs clickId ++ extras)) := by
    intro extras
    rw [encodeInstallReferrer, demand, if_pos hclick]
    rfl
  have hpairs : carriedPairs clickId value params = minimalPairs clickId ++ ("dl", value) ::
      (KeyedSort.sortOn (fun p : String × String => p.1.toList.map collationWeight) params).map
        fun p => ("dlp_" ++ p.1, p.2) := rfl
  have hlength := length_carried hclick hpath hparams
  rw [hpairs] at hlength ⊢
  rw [buildDeferredReferrer, hencode, Option.filter_some, if_pos (decide_eq_true hne)]
  simp only [hassert, hencode, hlength, List.append_nil, bind, Except.bind, pure, Except.pure]
  split
  · rfl
  · rfl

/-- A text of pairs starts as its first pair does. -/
theorem head?_text {p : String × String} (ps : List (String × String)) :
    (FormEncoding.text (p :: ps)).toList.head? = (FormEncoding.pair p).head? := by
  have hne : FormEncoding.pair p ≠ [] := by
    rw [FormEncoding.pair]
    exact List.append_ne_nil_of_right_ne_nil _ (List.cons_ne_nil _ _)
  obtain ⟨c, cs, hpair⟩ := List.exists_cons_of_ne_nil hne
  rw [FormEncoding.text, String.toList_ofList, List.map_cons, hpair]
  cases ps with
  | nil => rfl
  | cons q ps =>
      rw [List.map_cons, List.intercalate_cons_cons, List.cons_append, List.cons_append]
      rfl

/-- The sides of an encoded pair. -/
theorem sides_pair (p : String × String) :
    ((FormEncoding.pair p).takeWhile (· ≠ '='), ((FormEncoding.pair p).dropWhile (· ≠ '=')).tail) =
      (FormEncoding.encode p.1, FormEncoding.encode p.2) := by
  have hmem : '=' ∈ FormEncoding.pair p := by
    rw [FormEncoding.pair]
    exact List.mem_append.mpr (.inr List.mem_cons_self)
  have hsplit := FormEncoding.splitPair_pair p
  rw [FormEncoding.splitPair, if_pos hmem] at hsplit
  exact Option.some.inj hsplit

/-- The parameters of an encoded text are its pairs. -/
theorem urlSearchParams_text (D : FormEncoding.Decoder) {p : String × String}
    (ps : List (String × String)) (hp : (FormEncoding.pair p).head? ≠ some '?') :
    urlSearchParams D (FormEncoding.text (p :: ps)) = some (p :: ps) := by
  have hparts : (FormEncoding.text (p :: ps)).toList.splitOn '&' =
      (p :: ps).map FormEncoding.pair := by
    rw [FormEncoding.text, String.toList_ofList]
    refine List.splitOn_intercalate '&' ?_ (by simp)
    intro part hpart
    obtain ⟨q, _, rfl⟩ := List.mem_map.mp hpart
    exact FormEncoding.ampersand_not_mem_pair q
  have hkept : ((p :: ps).map FormEncoding.pair).filter (fun part => part ≠ []) =
      (p :: ps).map FormEncoding.pair := by
    refine List.filter_eq_self.mpr fun part hpart => ?_
    obtain ⟨q, _, rfl⟩ := List.mem_map.mp hpart
    rw [FormEncoding.pair]
    simp
  have hdecode : ((fun part => FormEncoding.decodePair D
      (part.takeWhile (· ≠ '='), (part.dropWhile (· ≠ '=')).tail)) ∘ FormEncoding.pair) = pure := by
    funext q
    rw [Function.comp_apply, sides_pair, FormEncoding.decodePair, D.decode_encode, D.decode_encode]
    rfl
  rw [urlSearchParams, head?_text, if_neg hp, hparts, hkept, List.mapM_map, hdecode,
    List.mapM_pure, List.map_id']
  rfl

/-- **What was written is read back.** -/
theorem decodeInstallReferrer_text (D : FormEncoding.Decoder) (clickId : String)
    {rest : List (String × String)}
    (hnodup : ((minimalPairs clickId ++ rest).map Prod.fst).Nodup) :
    ∃ fields, decodeInstallReferrer D (FormEncoding.text (minimalPairs clickId ++ rest)) =
      some fields ∧ fields.entries = minimalPairs clickId ++ rest := by
  refine ⟨InsertionMap.ofList (minimalPairs clickId ++ rest), ?_, InsertionMap.entries_ofList hnodup⟩
  have hversion : (FormEncoding.pair ("omv", "1")).head? ≠ some '?' := by decide
  rw [minimalPairs, List.cons_append, decodeInstallReferrer, urlSearchParams_text D _ hversion,
    Option.map_some]

end Referrers

section Creation

/-- The deep link of a link that is created, with its parameters. -/
structure CreatedLink (budget : Option Nat) (link : TrackingLinkRow) : Prop where
  nodup : link.deepLinkParamNames.Nodup
  names : ∀ name ∈ link.deepLinkParamNames, isParameterName name.toList = true
  value : ∀ value, link.deepLinkValue = some value → isDeepLinkValue value = true
  probe : ∀ value, link.deepLinkValue = some value →
    carriedSize (String.ofList (List.replicate 44 'x')) value (link.deepLinkParamNames.map
      fun name => (name, String.ofList (List.replicate 64 'x'))) ≤ budget.getD 512
  package : link.destinationKind = .playStore → link.playPackageName.isSome = true

/-- The parameters of the probe can be bound. -/
theorem probe_bindable {names : List String}
    (hnames : ∀ name ∈ names, isParameterName name.toList = true) :
    ∀ p ∈ names.map (fun name => (name, String.ofList (List.replicate 64 'x'))),
      isDeepLinkParameter p = true := by
  intro p hp
  obtain ⟨name, hname, rfl⟩ := List.mem_map.mp hp
  have hvalue : ofClass isUrlChar 1 64 (String.ofList (List.replicate 64 'x')).toList = true := by
    decide +kernel
  rw [isDeepLinkParameter, Bool.and_eq_true]
  exact ⟨hnames name hname, hvalue⟩

/-- A link that passes the check fits with every parameter filled with 64 times
`x`. -/
theorem checkReferrerBudget_ok {value : String} {names : List String} {maximum : Nat} {u : Unit}
    (hvalue : isDeepLinkValue value = true)
    (hnames : ∀ name ∈ names, isParameterName name.toList = true)
    (h : checkReferrerBudget (some value) names maximum = .ok u) :
    carriedSize (String.ofList (List.replicate 44 'x')) value (names.map
      fun name => (name, String.ofList (List.replicate 64 'x'))) ≤ maximum := by
  have hclick : isClickIdText (String.ofList (List.replicate 44 'x')).toList = true := by decide
  rw [checkReferrerBudget, if_pos Option.isSome_some, build_eq hclick hvalue (probe_bindable hnames)] at h
  obtain ⟨probe, hprobe, hcarried⟩ := PartialList.bind_eq_ok.mp h
  have hstatus := of_decide_eq_true (demand_ok hcarried)
  rw [← Except.ok.inj hprobe] at hstatus
  split at hstatus
  next hfits => exact hfits
  next => exact absurd hstatus (by decide)

/-- A deep link value that passes its check is one. -/
theorem checkedDeepLink_ok {text : Option String} {value : Option String}
    (h : checkedDeepLink text = .ok value) :
    ∀ v, value = some v → isDeepLinkValue v = true := by
  intro v hv
  cases text with
  | none =>
      rw [← Except.ok.inj h] at hv
      exact absurd hv (by simp)
  | some text =>
      rw [checkedDeepLink] at h
      cases hassert : assertDeepLinkValue text with
      | error e =>
          rw [hassert] at h
          cases h
      | ok w =>
          rw [hassert] at h
          obtain ⟨hsame, hvalid⟩ := isDeepLinkValue_of_assert hassert
          rw [← Except.ok.inj h] at hv
          rw [← Option.some.inj hv, hsame]
          exact hvalid

/-- A link that is created. -/
theorem createdLink {tenantId appId : ControlIdentifier} {allowedOrigins : List String}
    {budget : Option Nat} {draw : LinkDraw} {body : TrackingLinkBody} {link : TrackingLinkRow}
    (h : createTrackingLink tenantId appId allowedOrigins budget draw body = .ok link) :
    CreatedLink budget link := by
  obtain ⟨kind, _, h⟩ := PartialList.bind_eq_ok.mp h
  obtain ⟨destination, _, h⟩ := PartialList.bind_eq_ok.mp h
  obtain ⟨_, _, h⟩ := PartialList.bind_eq_ok.mp h
  obtain ⟨_, _, h⟩ := PartialList.bind_eq_ok.mp h
  obtain ⟨_, _, h⟩ := PartialList.bind_eq_ok.mp h
  obtain ⟨value, hvalue, h⟩ := PartialList.bind_eq_ok.mp h
  obtain ⟨_, hnames, h⟩ := PartialList.bind_eq_ok.mp h
  obtain ⟨ttl, _, h⟩ := PartialList.bind_eq_ok.mp h
  obtain ⟨_, hbudget, h⟩ := PartialList.bind_eq_ok.mp h
  obtain ⟨_, _, h⟩ := PartialList.bind_eq_ok.mp h
  obtain ⟨network, _, h⟩ := PartialList.bind_eq_ok.mp h
  obtain ⟨siteId, _, h⟩ := PartialList.bind_eq_ok.mp h
  obtain ⟨campaignId, _, h⟩ := PartialList.bind_eq_ok.mp h
  obtain ⟨adGroupId, _, h⟩ := PartialList.bind_eq_ok.mp h
  obtain ⟨creativeId, _, h⟩ := PartialList.bind_eq_ok.mp h
  have hchecked := demand_ok hnames
  simp only [Bool.and_eq_true, decide_eq_true_eq] at hchecked
  have hnamed : ∀ name ∈ body.deepLinkParamNames, isParameterName name.toList = true :=
    List.all_eq_true.mp hchecked.2
  rw [← Except.ok.inj h]
  exact {
    nodup := hchecked.1.2
    names := hnamed
    value := checkedDeepLink_ok hvalue
    probe := by
      intro v hv
      refine checkReferrerBudget_ok (checkedDeepLink_ok hvalue v hv) hnamed (u := ()) ?_
      change value = some v at hv
      rw [← hv]
      exact hbudget
    package := by
      intro hkind
      change kind = .playStore at hkind
      change (if kind = .playStore then some body.playPackageName else none).isSome = true
      rw [if_pos hkind]
      rfl }

end Creation

section Law

variable {D : FormEncoding.Decoder} {link : TrackingLinkRow} {budget : Option Nat}

/-- What a request binds of a created link are deep link parameters. -/
theorem bound_parameters (hlink : CreatedLink budget link) (source : List (String × String)) :
    ∀ p ∈ bindDeepLinkParameters source link.deepLinkParamNames, isDeepLinkParameter p = true := by
  intro p hp
  obtain ⟨hname, hvalue⟩ := mem_bindDeepLinkParameters hp
  rw [isDeepLinkParameter, Bool.and_eq_true]
  exact ⟨hlink.names p.1 hname, hvalue⟩

/-- The referrer of a click is read back as it was written: the click id, and
the deep link with its parameters if it is carried, within the budget. -/
def ReadBack (D : FormEncoding.Decoder) (clickId value : String) (params : List (String × String))
    (maximum : Nat) : Prop :=
  ∃ referrer status fields,
    buildDeferredReferrer clickId (some value) params maximum = .ok (referrer, status) ∧
    decodeInstallReferrer D referrer = some fields ∧
    (status = .omittedLength ∧ fields.entries = minimalPairs clickId ∨
      status = .carried ∧ referrer.length ≤ maximum ∧
        fields.entries.Perm (minimalPairs clickId ++ ("dl", value) :: params.map marked))

/-- **Round trip.**  A referrer that is not too long is read back as it was
built. -/
theorem readBack {clickId value : String} {params : List (String × String)} (maximum : Nat)
    (hclick : isClickIdText clickId.toList = true) (hvalue : isDeepLinkValue value = true)
    (hparams : ∀ p ∈ params, isDeepLinkParameter p = true)
    (hnodup : (params.map Prod.fst).Nodup) :
    ReadBack D clickId value params maximum := by
  have hpath : isDeepLinkPath value.toList = true := by
    simp only [isDeepLinkValue, Bool.and_eq_true, decide_eq_true_eq] at hvalue
    exact hvalue.1.2
  have hbuilt : buildDeferredReferrer clickId (some value) params maximum = _ :=
    build_eq hclick hvalue hparams
  by_cases hfits : carriedSize clickId value params ≤ maximum
  · rw [if_pos hfits] at hbuilt
    obtain ⟨fields, hfields, hentries⟩ :=
      decodeInstallReferrer_text D clickId (carriedPairs_nodup hnodup)
    refine ⟨_, _, fields, hbuilt, hfields, .inr ⟨rfl, ?_, ?_⟩⟩
    · rw [length_carried hclick hpath hparams]
      exact hfits
    · rw [hentries]
      exact (((KeyedSort.perm_sortOn parameterOrder params).map marked).cons _).append_left _
  · rw [if_neg hfits] at hbuilt
    have hminimal : ((minimalPairs clickId ++ []).map Prod.fst).Nodup := by
      change ["omv", "cid"].Nodup
      decide
    obtain ⟨fields, hfields, hentries⟩ := decodeInstallReferrer_text D clickId hminimal
    rw [List.append_nil] at hfields hentries
    exact ⟨_, _, fields, hbuilt, hfields, .inl ⟨rfl, hentries⟩⟩

/-- The redirect to a link carries the link's own deep link. -/
def LinkCarries (link : TrackingLinkRow) (budget : Option Nat) (clickId : String)
    (params : List (String × String)) : Prop :=
  ∀ now remoteClickRef sourceRateClass clientClass, ∃ click,
    resolveRedirect {
      link := link
      now := now
      clickId := clickId
      remoteClickRef := remoteClickRef
      sourceRateClass := sourceRateClass
      clientClass := clientClass
      deepLinkParams := params
      referrerMaximumEncodedCharacters := budget.getD 512
      deepLinkValue := none } = .ok click ∧
    click.deferredDeepLinkStatus = some .carried

/-- The deep link is carried if it stays within the budget. -/
theorem linkCarries_iff (hlink : CreatedLink budget link) {clickId value : String}
    {params : List (String × String)} (hclick : isClickIdText clickId.toList = true)
    (hvalue : link.deepLinkValue = some value)
    (hparams : ∀ p ∈ params, isDeepLinkParameter p = true) :
    LinkCarries link budget clickId params ↔ carriedSize clickId value params ≤ budget.getD 512 := by
  have hvalid := hlink.value value hvalue
  have hpath : isDeepLinkPath value.toList = true := by
    simp only [isDeepLinkValue, Bool.and_eq_true, decide_eq_true_eq] at hvalid
    exact hvalid.1.2
  have hne : value ≠ "" := by
    rintro rfl
    exact absurd hpath (by decide)
  have hbuilt : buildDeferredReferrer clickId (some value) params (budget.getD 512) = _ :=
    build_eq hclick hvalid hparams
  have hchosen : (none <|> link.deepLinkValue).filter (fun value => value ≠ "") = some value := by
    rw [hvalue]
    exact (Option.filter_some).trans (if_pos (decide_eq_true hne))
  constructor
  · intro hcarries
    by_contra hover
    rw [if_neg hover] at hbuilt
    obtain ⟨click, hresolve, hstatus⟩ := hcarries ⟨2026, 5, 1, 12, 0, 0, 0⟩ none .normal none
    rw [resolveRedirect, hchosen, hbuilt] at hresolve
    obtain ⟨_, hpair, hresolve⟩ := PartialList.bind_eq_ok.mp hresolve
    obtain ⟨_, _, hresolve⟩ := PartialList.bind_eq_ok.mp hresolve
    obtain ⟨_, _, hresolve⟩ := PartialList.bind_eq_ok.mp hresolve
    rw [← Except.ok.inj hresolve, ← Except.ok.inj hpair] at hstatus
    have hstatus : DeferredStatus.omittedLength = .carried := Option.some.inj hstatus
    exact absurd hstatus (by decide)
  · intro hfits now remoteClickRef sourceRateClass clientClass
    rw [if_pos hfits] at hbuilt
    have hlength := length_carried hclick hpath hparams
    have hpackage : (link.destinationKind ≠ .playStore || link.playPackageName.isSome) = true := by
      by_cases hkind : link.destinationKind = .playStore
      · rw [hlink.package hkind, Bool.or_true]
      · rw [decide_eq_true hkind, Bool.true_or]
    rw [resolveRedirect, hchosen, hbuilt]
    simp only [bind, Except.bind, demand, hlength, hfits, hpackage, decide_true, if_pos]
    exact ⟨_, rfl, rfl⟩

/-- Values without a tilde stay below the values the creation tries out. -/
theorem carriedSize_le_probe {clickId value : String} {names : List String}
    {params : List (String × String)} (hclick : clickId.length ≤ 44)
    (hnames : ∀ p ∈ params, p.1 ∈ names) (hnodup : (params.map Prod.fst).Nodup)
    (hparams : ∀ p ∈ params, isDeepLinkParameter p = true)
    (hplain : ∀ p ∈ params, '~' ∉ p.2.toList) :
    carriedSize clickId value params ≤ carriedSize (String.ofList (List.replicate 44 'x')) value
      (names.map fun name => (name, String.ofList (List.replicate 64 'x'))) := by
  have hvalue : ∀ p ∈ params, encodedSize p.2 ≤ 64 := by
    intro p hp
    have hform := hparams p hp
    rw [isDeepLinkParameter, Bool.and_eq_true, ofClass, Bool.and_eq_true, Bool.and_eq_true] at hform
    have hslash : '/' ∉ p.2.toList := fun hmem =>
      absurd (List.all_eq_true.mp hform.2.2 '/' hmem) (by decide)
    rw [encodedSize_of_notMem hslash (hplain p hp), ← String.length_toList]
    exact of_decide_eq_true hform.2.1.2
  have hprobe : encodedSize (String.ofList (List.replicate 64 'x')) = 64 := by decide
  have heach : (params.map parameterSize).sum ≤
      ((params.map Prod.fst).map fun name => 70 + name.length).sum := by
    rw [List.map_map]
    refine List.sum_le_sum fun p hp => ?_
    have hbound := hvalue p hp
    rw [parameterSize, Function.comp_apply]
    omega
  have hbound : ((params.map Prod.fst).map fun name => 70 + name.length).sum ≤
      (names.map fun name => 70 + name.length).sum := by
    have hsubset : params.map Prod.fst ⊆ names := by
      intro name hname
      obtain ⟨p, hp, rfl⟩ := List.mem_map.mp hname
      exact hnames p hp
    obtain ⟨kept, hperm, hsub⟩ := List.subperm_of_subset hnodup hsubset
    rw [← (hperm.map fun name => 70 + name.length).sum_eq]
    exact (hsub.map _).sum_le_sum fun _ _ => Nat.zero_le _
  have htried : ((names.map fun name => (name, String.ofList (List.replicate 64 'x'))).map
      parameterSize).sum = (names.map fun name => 70 + name.length).sum := by
    rw [List.map_map]
    refine congrArg List.sum (List.map_congr_left fun name _ => ?_)
    rw [Function.comp_apply, parameterSize, hprobe, Nat.add_right_comm]
  have hid : (String.ofList (List.replicate 44 'x')).length = 44 := by decide
  rw [carriedSize, carriedSize, htried, hid]
  omega

/-- A link that is created is carried with all values that have no tilde. -/
theorem linkCarries_of_plain (hlink : CreatedLink budget link) {clickId value : String}
    {source : List (String × String)} (hclick : isClickIdText clickId.toList = true)
    (hlength : clickId.length ≤ 44) (hvalue : link.deepLinkValue = some value)
    (hplain : ∀ p ∈ bindDeepLinkParameters source link.deepLinkParamNames, '~' ∉ p.2.toList) :
    LinkCarries link budget clickId (bindDeepLinkParameters source link.deepLinkParamNames) := by
  have hparams := bound_parameters hlink source
  refine (linkCarries_iff hlink hclick hvalue hparams).mpr ((carriedSize_le_probe hlength ?_
    (nodup_bindDeepLinkParameters source _) hparams hplain).trans (hlink.probe value hvalue))
  exact fun p hp => (mem_bindDeepLinkParameters hp).1

/-- For all links that are created, and for all click ids, deep-link values,
queries and budgets: a referrer is read back as it was written, and the redirect
to the link carries the link's deep link, exactly when the click id, the deep
link and the bound parameters, with three characters for a slash or a tilde,
stay within the budget of the link. -/
theorem referrerLaw_iff (D : FormEncoding.Decoder) {tenantId appId : ControlIdentifier}
    {allowedOrigins : List String} {budget : Option Nat} {draw : LinkDraw}
    {body : TrackingLinkBody} {link : TrackingLinkRow}
    (hlink : createTrackingLink tenantId appId allowedOrigins budget draw body = .ok link)
    {clickId value : String} (hclick : isClickIdText clickId.toList = true)
    (hvalue : assertDeepLinkValue value = .ok value) (source : List (String × String))
    (maximum : Nat) :
    (ReadBack D clickId value (bindDeepLinkParameters source link.deepLinkParamNames) maximum ∧
      (link.deepLinkValue.isSome = true → LinkCarries link budget clickId
        (bindDeepLinkParameters source link.deepLinkParamNames))) ↔
    ∀ own, link.deepLinkValue = some own → carriedSize clickId own
      (bindDeepLinkParameters source link.deepLinkParamNames) ≤ budget.getD 512 := by
  have hcreated := createdLink hlink
  have hparams := bound_parameters hcreated source
  constructor
  · intro hlaw own hown
    exact (linkCarries_iff hcreated hclick hown hparams).mp
      (hlaw.2 (hown ▸ Option.isSome_some))
  · intro hfits
    refine ⟨readBack maximum hclick (isDeepLinkValue_of_assert hvalue).2 hparams
      (nodup_bindDeepLinkParameters source _), fun hown => ?_⟩
    obtain ⟨own, hown⟩ := Option.isSome_iff_exists.mp hown
    exact (linkCarries_iff hcreated hclick hown hparams).mpr (hfits own hown)

/-- A link to an item of a shop, with one parameter, and a budget that its
longest referrer uses up. -/
def itemLink : Except String TrackingLinkRow :=
  createTrackingLink ⟨"tenant:shop", shopTenant_valid⟩ ⟨"app:shop", shopApp_valid⟩
    ["https://shop.example"] (some 145)
    ⟨zeroUuid, "shop-item-1"⟩
    { shopBody none with
      deepLinkValue := some "/item/1"
      deepLinkParamNames := ["coupon"] }

/-- A query that binds the parameter. -/
def itemQuery (value : String) : List (String × String) := [("dlp_coupon", value)]

/-- A click id of 44 characters. -/
def itemClickId : String := String.ofList (List.replicate 44 'c')

/-- The link is created, with its path and one parameter. -/
theorem itemLink_created : ∃ link, itemLink = .ok link ∧ link.deepLinkValue = some "/item/1" ∧
    link.deepLinkParamNames = ["coupon"] := by
  have hparts : (itemLink.map fun link => (link.deepLinkValue, link.deepLinkParamNames)) =
      .ok (some "/item/1", ["coupon"]) := by
    decide +kernel
  cases hitem : itemLink with
  | error e =>
      rw [hitem] at hparts
      cases hparts
  | ok link =>
      rw [hitem] at hparts
      obtain ⟨hvalue, hnames⟩ := Prod.mk.inj (Except.ok.inj hparts)
      exact ⟨link, rfl, hvalue, hnames⟩

/-- A coupon without a tilde arrives. -/
theorem plainCoupon_carried : ∃ link, itemLink = .ok link ∧
    ReadBack FormEncoding.utf8Decoder itemClickId "/item/1"
      (bindDeepLinkParameters (itemQuery "summer") link.deepLinkParamNames) 512 ∧
    (link.deepLinkValue.isSome = true → LinkCarries link (some 145) itemClickId
      (bindDeepLinkParameters (itemQuery "summer") link.deepLinkParamNames)) := by
  obtain ⟨link, hlink, hvalue, hnames⟩ := itemLink_created
  refine ⟨link, hlink, (referrerLaw_iff FormEncoding.utf8Decoder hlink (by decide) (by decide)
    (itemQuery "summer") 512).mpr fun own hown => ?_⟩
  rw [← Option.some.inj (hvalue.symm.trans hown), hnames]
  decide

/-- The longest coupon does not arrive if it has a tilde: the probe at the
creation of the link fills it with letters that encoding does not grow, and a
tilde grows to three. -/
theorem tildeCoupon_omitted : ∃ link, itemLink = .ok link ∧ link.deepLinkValue = some "/item/1" ∧
    ¬LinkCarries link (some 145) itemClickId (bindDeepLinkParameters
      (itemQuery (String.ofList ('~' :: List.replicate 63 'x'))) link.deepLinkParamNames) := by
  obtain ⟨link, hlink, hvalue, hnames⟩ := itemLink_created
  have hcreated := createdLink hlink
  refine ⟨link, hlink, hvalue, fun hcarries => ?_⟩
  have hfits := (linkCarries_iff hcreated (by decide) hvalue
    (bound_parameters hcreated _)).mp hcarries
  rw [hnames] at hfits
  exact absurd hfits (by decide)

end Law

end OpenMasu
