import Mathlib.Algebra.Order.Ring.Unbundled.Rat
import Mathlib.Data.List.Induction
import Mathlib.Tactic.NormNum
import OpenMasu.CreditMeter
import OpenMasu.InsertionMap
import OpenMasu.KeyedSort

/-!
# Rate limits by principal

A token bucket refills at a rate up to its burst and pays one token for each
call it allows.  The receiver keeps one bucket for each key, in a map that
drops idle keys and, when it is full, the key not seen for the longest time;
a key that was dropped comes back with a full bucket.

* `TokenBucket` — the bucket, between empty and its burst;
* `KeyedTokenBucket.allow` — one call, `Drops` — a key dropped before its
  bucket has refilled;
* `allow_metered` — the refilled bucket of a key pays for its calls;
* `full_map_restores_burst` — another key makes room for a second burst;
* `allowed_calls_bounded` — the calls a key is allowed in a window.
-/

namespace OpenMasu

open CreditMeter

/-- The arguments of the constructor that pass its checks, and those of its
buckets. -/
structure Limits where
  ratePerSecond : ℚ
  burst : ℚ
  maximumKeys : Nat := 10000
  idleTtlMs : ℚ := 15 * 60 * 1000
  rate_pos : 0 < ratePerSecond
  one_le_burst : 1 ≤ burst
  one_le_keys : 1 ≤ maximumKeys
  ttl_pos : 0 < idleTtlMs

variable {l : Limits}

section Bucket

structure TokenBucket (l : Limits) where
  tokens : ℚ
  updatedAt : ℚ
  nonneg : 0 ≤ tokens
  le_burst : tokens ≤ l.burst

/-- A burst is at least one call. -/
theorem Limits.burst_nonneg (l : Limits) : 0 ≤ l.burst := zero_le_one.trans l.one_le_burst

/-- A new bucket is full. -/
def TokenBucket.new (now : ℚ) : TokenBucket l := ⟨l.burst, now, l.burst_nonneg, le_rfl⟩

/-- The tokens after the refill at a time. -/
def TokenBucket.refilled (b : TokenBucket l) (now : ℚ) : ℚ :=
  min l.burst (b.tokens + max 0 (now - b.updatedAt) / 1000 * l.ratePerSecond)

/-- A bucket never holds more than the burst. -/
theorem TokenBucket.refilled_le (b : TokenBucket l) (now : ℚ) : b.refilled now ≤ l.burst :=
  min_le_left _ _

/-- Nor does it hold less than nothing. -/
theorem TokenBucket.refilled_nonneg (b : TokenBucket l) (now : ℚ) : 0 ≤ b.refilled now := by
  have hrate := l.rate_pos.le
  have hnonneg := b.nonneg
  have hburst := l.burst_nonneg
  unfold TokenBucket.refilled
  positivity

/-- `TokenBucket.allow`. -/
def TokenBucket.allow (b : TokenBucket l) (now : ℚ) : Bool × TokenBucket l :=
  if h : b.refilled now < 1 then
    (false, ⟨b.refilled now, now, b.refilled_nonneg now, b.refilled_le now⟩)
  else
    (true, ⟨b.refilled now - 1, now, by linarith, by linarith [b.refilled_le now]⟩)

/-- A new bucket is full. -/
theorem TokenBucket.refilled_new (now : ℚ) : (TokenBucket.new now : TokenBucket l).refilled now
    = l.burst := by
  rw [refilled, new, sub_self, max_self, zero_div, zero_mul, add_zero, min_self]

/-- A bucket just used holds its tokens. -/
theorem TokenBucket.refilled_self (b : TokenBucket l) : b.refilled b.updatedAt = b.tokens := by
  rw [refilled, sub_self, max_self, zero_div, zero_mul, add_zero, min_eq_right b.le_burst]

/-- A call leaves what the refill does not pay for it. -/
theorem TokenBucket.allow_pays (b : TokenBucket l) (now : ℚ) :
    (b.allow now).2.refilled now + (if (b.allow now).1 then 1 else 0) = b.refilled now := by
  unfold TokenBucket.allow
  split
  · rw [if_neg Bool.false_ne_true, add_zero]
    exact refilled_self _
  · rw [if_pos rfl, ← eq_sub_iff_add_eq]
    exact refilled_self _

/-- Between two times a bucket gains at most what the rate brings. -/
theorem TokenBucket.refilled_grows (b : TokenBucket l) {t t' : ℚ} (h : t ≤ t') :
    b.refilled t' ≤ b.refilled t + l.ratePerSecond / 1000 * (t' - t) := by
  have hrate := l.rate_pos
  have hmax : max 0 (t' - b.updatedAt) ≤ max 0 (t - b.updatedAt) + (t' - t) :=
    max_le (by linarith [le_max_left 0 (t - b.updatedAt)])
      (by linarith [le_max_right 0 (t - b.updatedAt)])
  have hadded := mul_le_mul_of_nonneg_right hmax
    (div_nonneg hrate.le (by norm_num : (0 : ℚ) ≤ 1000))
  have hlater : 0 ≤ l.ratePerSecond / 1000 * (t' - t) :=
    mul_nonneg (by positivity) (sub_nonneg.mpr h)
  unfold TokenBucket.refilled
  rw [← min_add_add_right]
  refine le_min ((min_le_left _ _).trans (by linarith)) ((min_le_right _ _).trans ?_)
  linarith

end Bucket

section Keys

structure BucketEntry (l : Limits) where
  bucket : TokenBucket l
  lastSeenAt : ℚ

/-- The map from keys to buckets. -/
abbrev KeyedTokenBucket (l : Limits) := InsertionMap String (BucketEntry l)

namespace KeyedTokenBucket

/-- The keys that are not idle. -/
def expire (now : ℚ) (entries : KeyedTokenBucket l) : KeyedTokenBucket l :=
  entries.filter fun e => !Decidable.decide (l.idleTtlMs ≤ now - e.2.lastSeenAt)

/-- A full map drops the key not seen for the longest time. -/
def makeRoom (entries : KeyedTokenBucket l) : KeyedTokenBucket l :=
  if l.maximumKeys ≤ entries.entries.length then
    match (KeyedSort.sortOn (fun e => e.2.lastSeenAt) entries.entries).head? with
    | some oldest => entries.erase oldest.1
    | none => entries
  else entries

/-- What a call of a key leaves of the map before it writes the key. -/
def kept (key : String) (now : ℚ) (entries : KeyedTokenBucket l) : KeyedTokenBucket l :=
  match (expire now entries).get key with
  | some _ => expire now entries
  | none => makeRoom (expire now entries)

/-- `KeyedTokenBucket.allow`. -/
def allow (key : String) (now : ℚ) (entries : KeyedTokenBucket l) : Bool × KeyedTokenBucket l :=
  let entry := match (expire now entries).get key with
    | some entry => entry
    | none => ⟨TokenBucket.new now, now⟩
  let (allowed, bucket) := entry.bucket.allow now
  (allowed, (kept key now entries).set key ⟨bucket, now⟩)

variable {key : String} {now : ℚ} {entries : KeyedTokenBucket l}

/-- Expiry adds no entry. -/
theorem length_expire_le : (expire now entries).entries.length ≤ entries.entries.length :=
  List.length_filter_le _ _

/-- There is room for one more key. -/
theorem length_makeRoom_lt (h : entries.entries.length ≤ l.maximumKeys) :
    (makeRoom entries).entries.length < l.maximumKeys := by
  unfold makeRoom
  split
  · case isTrue hfull =>
      cases holdest : (KeyedSort.sortOn (fun e => e.2.lastSeenAt) entries.entries).head? with
      | none =>
          have hempty := congrArg List.length (List.head?_eq_none_iff.mp holdest)
          rw [KeyedSort.length_sortOn, List.length_nil] at hempty
          have hkeys := l.one_le_keys
          omega
      | some oldest =>
          have hmem := (KeyedSort.mem_sortOn _).mp (List.mem_of_head? holdest)
          exact (InsertionMap.length_erase_lt hmem).trans_le h
  · case isFalse hroom => omega

/-- The map keeps its bound. -/
theorem length_allow_le (h : entries.entries.length ≤ l.maximumKeys) :
    (allow key now entries).2.entries.length ≤ l.maximumKeys := by
  have hlive : (expire now entries).entries.length ≤ l.maximumKeys := length_expire_le.trans h
  rw [allow, kept]
  dsimp only
  rw [InsertionMap.length_set]
  cases hget : (expire now entries).get key with
  | some entry =>
      dsimp only
      rw [if_pos (List.mem_map_of_mem (InsertionMap.get_eq_some_iff.mp hget))]
      exact hlive
  | none =>
      have hroom := length_makeRoom_lt hlive
      dsimp only
      split <;> omega

/-- The map after a sequence of calls. -/
def after (l : Limits) (calls : List (String × ℚ)) : KeyedTokenBucket l :=
  calls.foldl (fun entries call => (allow call.1 call.2 entries).2) InsertionMap.empty

/-- The map never grows over its bound, whatever is called. -/
theorem length_after_le (calls : List (String × ℚ)) :
    (after l calls).entries.length ≤ l.maximumKeys := by
  induction calls using List.reverseRecOn with
  | nil => exact Nat.zero_le _
  | append_singleton calls call ih =>
      rw [after, List.foldl_append]
      exact length_allow_le ih

end KeyedTokenBucket

end Keys

section Credit

open KeyedTokenBucket

variable {key k : String} {now : ℚ} {entries : KeyedTokenBucket l}

/-- What the bucket of a key holds; a key without an entry comes with a full
one. -/
def credit (k : String) (entries : KeyedTokenBucket l) (t : ℚ) : ℚ :=
  match entries.get k with
  | some entry => entry.bucket.refilled t
  | none => l.burst

/-- A call drops the entry of a key before its bucket has refilled. -/
def Drops (k : String) (entries : KeyedTokenBucket l) (call : String × ℚ) : Bool :=
  match entries.get k with
  | some entry =>
      ((kept call.1 call.2 entries).get k).isNone && entry.bucket.refilled call.2 < l.burst
  | none => false

/-- The calls of a limiter, as seen by one key. -/
def callsOf (l : Limits) (k : String) : Machine (KeyedTokenBucket l) (String × ℚ) ℚ where
  time := Prod.snd
  step := fun entries call => (allow call.1 call.2 entries).2
  grants := fun entries call => call.1 = k && (allow call.1 call.2 entries).1
  lapses := Drops k

/-- A key with an entry has the credit of its bucket. -/
theorem credit_of_get {entry : BucketEntry l} (h : entries.get k = some entry) (t : ℚ) :
    credit k entries t = entry.bucket.refilled t := by rw [credit, h]

/-- A key without an entry is granted a full burst. -/
theorem credit_of_none (h : entries.get k = none) (t : ℚ) : credit k entries t = l.burst := by
  rw [credit, h]

/-- No key owes a call. -/
theorem credit_nonneg (t : ℚ) : 0 ≤ credit k entries t := by
  unfold credit
  split
  · exact TokenBucket.refilled_nonneg _ t
  · exact l.burst_nonneg

/-- A key never has more credit than the burst. -/
theorem credit_le (t : ℚ) : credit k entries t ≤ l.burst := by
  unfold credit
  split
  · exact TokenBucket.refilled_le _ t
  · exact le_rfl

/-- The credit of a key grows no faster than the rate. -/
theorem credit_grows {t t' : ℚ} (h : t ≤ t') :
    credit k entries t' ≤ credit k entries t + l.ratePerSecond / 1000 * (t' - t) := by
  unfold credit
  split
  · exact TokenBucket.refilled_grows _ h
  · have hrate := l.rate_pos
    have hlater := mul_nonneg (by positivity : 0 ≤ l.ratePerSecond / 1000) (sub_nonneg.mpr h)
    linarith

/-- What room is made around was there before. -/
theorem get_makeRoom {entry : BucketEntry l} (h : (makeRoom entries).get k = some entry) :
    entries.get k = some entry := by
  unfold makeRoom at h
  split at h
  · split at h
    · rw [InsertionMap.erase, InsertionMap.get_filter] at h
      exact (Option.filter_eq_some_iff.mp h).1
    · exact h
  · exact h

/-- What is kept is unchanged. -/
theorem get_kept {entry : BucketEntry l} (h : (kept key now entries).get k = some entry) :
    entries.get k = some entry := by
  have hlive : (expire now entries).get k = some entry := by
    unfold kept at h
    split at h
    · exact h
    · exact get_makeRoom h
  rw [expire, InsertionMap.get_filter] at hlive
  exact (Option.filter_eq_some_iff.mp hlive).1

/-- Dropping an entry restores at most a burst, and nothing if its bucket had
refilled. -/
theorem credit_kept_le (call : String × ℚ) : credit k (kept call.1 call.2 entries) call.2 ≤
    credit k entries call.2 + if Drops k entries call then l.burst else 0 := by
  have hextra : (0 : ℚ) ≤ if Drops k entries call then l.burst else 0 := by
    split
    · exact l.burst_nonneg
    · exact le_rfl
  cases hkept : (kept call.1 call.2 entries).get k with
  | some entry =>
      rw [credit_of_get hkept, credit_of_get (get_kept hkept)]
      linarith
  | none =>
      rw [credit_of_none hkept]
      cases hget : entries.get k with
      | none =>
          rw [credit_of_none hget]
          linarith
      | some entry =>
          rw [credit_of_get hget]
          by_cases hshort : entry.bucket.refilled call.2 < l.burst
          · have hdrops : Drops k entries call = true := by
              simp only [Drops, hget, hkept, Option.isNone_none, Bool.true_and, decide_eq_true_eq]
              exact hshort
            rw [if_pos hdrops]
            linarith [entry.bucket.refilled_nonneg call.2]
          · linarith

/-- The bucket that answers a call holds the credit that was kept. -/
theorem exists_bucket (key : String) (now : ℚ) (entries : KeyedTokenBucket l) :
    ∃ b : TokenBucket l, b.refilled now = credit key (kept key now entries) now ∧
      allow key now entries =
        ((b.allow now).1, (kept key now entries).set key ⟨(b.allow now).2, now⟩) := by
  cases hlive : (expire now entries).get key with
  | some entry =>
      have hkept : (kept key now entries).get key = some entry := by
        rw [kept, hlive]
        exact hlive
      refine ⟨entry.bucket, (credit_of_get hkept now).symm, ?_⟩
      rw [allow, hlive]
  | none =>
      have hkept : (kept key now entries).get key = none := by
        rw [kept, hlive]
        cases hroom : (makeRoom (expire now entries)).get key with
        | none => rfl
        | some entry => cases hlive.symm.trans (get_makeRoom hroom)
      refine ⟨TokenBucket.new now, ?_, ?_⟩
      · rw [credit_of_none hkept, TokenBucket.refilled_new]
      · rw [allow, hlive]

/-- The credit that was kept pays for the call. -/
theorem credit_allow (call : String × ℚ) :
    credit k (allow call.1 call.2 entries).2 call.2 +
        (if (callsOf l k).grants entries call then 1 else 0) =
      credit k (kept call.1 call.2 entries) call.2 := by
  obtain ⟨b, hcredit, hallow⟩ := exists_bucket call.1 call.2 entries
  by_cases hk : call.1 = k
  · subst hk
    have hafter : credit call.1 (allow call.1 call.2 entries).2 call.2 =
        (b.allow call.2).2.refilled call.2 := by
      rw [hallow]
      exact credit_of_get (InsertionMap.get_set_self _ _ _) _
    have hgrants : (callsOf l call.1).grants entries call = (b.allow call.2).1 := by
      simp only [callsOf, hallow, decide_true, Bool.true_and]
    rw [hafter, hgrants, ← hcredit]
    exact b.allow_pays call.2
  · have hother : (callsOf l k).grants entries call = false := by
      simp only [callsOf, decide_eq_false hk, Bool.false_and]
    rw [hother, if_neg Bool.false_ne_true, add_zero, hallow, credit, credit,
      InsertionMap.get_set_other _ _ hk]

/-- The refilled bucket of a key pays for its calls. -/
theorem allow_metered (l : Limits) (k : String) :
    Metered (callsOf l k) l.burst (l.ratePerSecond / 1000) (credit k) where
  rate_nonneg := div_nonneg l.rate_pos.le (by norm_num)
  nonneg := fun _ => credit_nonneg
  le_cap := fun _ => credit_le
  grows := fun _ _ _ => credit_grows
  pays := by
    intro entries call
    exact (credit_allow call).trans_le (credit_kept_le call)
  opens := by
    intro entries call hgrants
    have hpaid : credit k (allow call.1 call.2 entries).2 call.2 +
          (if (callsOf l k).grants entries call then 1 else 0)
        = credit k (kept call.1 call.2 entries) call.2 := credit_allow call
    rw [if_pos hgrants] at hpaid
    exact hpaid.trans_le (credit_le _)

end Credit

section Window

open KeyedTokenBucket

/-- The answers to the calls of a key within a window, from an empty map. -/
def answers (l : Limits) (calls : List (String × ℚ)) (k : String) (t T : ℚ) : List (Outcome ℚ) :=
  window t T ((callsOf l k).outcomes InsertionMap.empty calls)

/-- A limiter with one place in its map. -/
def singleKeyLimits : Limits where
  ratePerSecond := 1
  burst := 1
  maximumKeys := 1
  rate_pos := zero_lt_one
  one_le_burst := le_rfl
  one_le_keys := le_rfl
  ttl_pos := by norm_num

/-- Two keys that take turns. -/
def turns : List (String × ℚ) := [("a", 0), ("b", 0), ("a", 0)]

/-- With one place in the map, a call of another key brings a second burst at
the same time: the bucket of the first key is dropped to make room, and its
next call finds a new one, which is full. -/
theorem full_map_restores_burst :
    ¬ ∀ (l : Limits) (calls : List (String × ℚ)), calls.Pairwise (fun a b => a.2 ≤ b.2) →
      ∀ (k : String) (t T : ℚ), 0 ≤ T →
        (granted (answers l calls k t T) : ℚ) ≤ l.burst + l.ratePerSecond * T / 1000 := by
  intro h
  have hbound := h singleKeyLimits turns (by decide) "a" 0 0 le_rfl
  have htwo : granted (answers singleKeyLimits turns "a" 0 0) = 2 := by decide +kernel
  rw [htwo] at hbound
  norm_num [singleKeyLimits] at hbound

/-- In a window a key is allowed a burst, what the rate adds, and one more
burst for each time that its entry was dropped, behind its first allowed call
and before its bucket had refilled; the map keeps its bound. -/
theorem allowed_calls_bounded (l : Limits) (calls : List (String × ℚ))
    (hsorted : calls.Pairwise fun a b => a.2 ≤ b.2) :
    (after l calls).entries.length ≤ l.maximumKeys ∧
      ∀ (k : String) (t T : ℚ), 0 ≤ T → (granted (answers l calls k t T) : ℚ) ≤
        l.burst * (1 + lapsed (afterGrant (answers l calls k t T))) +
          l.ratePerSecond * T / 1000 := by
  refine ⟨length_after_le calls, fun k t T hT => ?_⟩
  have hbound := (allow_metered l k).grants_window (s := InsertionMap.empty) hsorted hT (t := t)
  rw [div_mul_eq_mul_div] at hbound
  exact hbound

/-- The bound at a run in which two keys take turns in a map of one entry. -/
theorem turns_bounded :
    (granted (answers singleKeyLimits turns "a" 0 0) : ℚ) ≤
      1 * (1 + lapsed (afterGrant (answers singleKeyLimits turns "a" 0 0))) + 1 * 0 / 1000 :=
  (allowed_calls_bounded singleKeyLimits turns (by decide)).2 "a" 0 0 le_rfl

end Window

end OpenMasu
