import Mathlib.Data.List.Basic

/-!
# Patterns of paths

A path is the list of its segments.  A pattern fixes some of the segments and
leaves others open to any segment that is not empty; it admits a path of its
own length whose segments it admits one by one.

* `admits_meet` — two patterns that admit one path meet, which is decided
  without a path;
* `exists_captured` — a pattern with an open segment captures one from every
  path it admits.
-/

/-- A segment of a pattern. -/
inductive PathPart where
  | text (s : String)
  | any
  deriving DecidableEq

namespace PathPart

def admitsPart : PathPart → List Char → Bool
  | text s, segment => s.toList = segment
  | any, segment => !segment.isEmpty

/-- A pattern admits the segments of a path. -/
def admits : List PathPart → List (List Char) → Bool
  | [], [] => true
  | p :: pattern, segment :: path => p.admitsPart segment && admits pattern path
  | _, _ => false

def meetsPart : PathPart → PathPart → Bool
  | text s, text t => s = t
  | _, _ => true

/-- Two patterns of one length that differ in no fixed segment. -/
def meets : List PathPart → List PathPart → Bool
  | [], [] => true
  | p :: pattern, q :: pattern' => p.meetsPart q && meets pattern pattern'
  | _, _ => false

/-- The first open segment. -/
def captured : List PathPart → List (List Char) → Option (List Char)
  | any :: _, segment :: _ => some segment
  | text _ :: pattern, _ :: path => captured pattern path
  | _, _ => none

/-- The segments of a path that begins with a slash. -/
def segments (path : String) : Option (List (List Char)) :=
  match path.toList.splitOn '/' with
  | [] :: rest => some rest
  | _ => none

theorem meetsPart_of_admitsPart {p q : PathPart} {segment : List Char}
    (hp : p.admitsPart segment = true) (hq : q.admitsPart segment = true) :
    p.meetsPart q = true := by
  cases p with
  | any => rfl
  | text s =>
      cases q with
      | any => rfl
      | text t =>
          simp only [admitsPart, decide_eq_true_eq] at hp hq
          exact decide_eq_true (String.toList_injective (hp.trans hq.symm))

theorem meetsPart_comm (p q : PathPart) : p.meetsPart q = q.meetsPart p := by
  cases p <;> cases q <;> simp only [meetsPart, eq_comm]

theorem meets_comm (pattern pattern' : List PathPart) :
    meets pattern pattern' = meets pattern' pattern := by
  induction pattern generalizing pattern' with
  | nil => cases pattern' <;> rfl
  | cons p pattern ih =>
      cases pattern' with
      | nil => rfl
      | cons q pattern' => rw [meets, meets, meetsPart_comm, ih]

/-- **Two patterns that admit one path meet.**  So patterns that do not meet
never admit the same path. -/
theorem admits_meet {pattern pattern' : List PathPart} {path : List (List Char)}
    (h : admits pattern path = true) (h' : admits pattern' path = true) :
    meets pattern pattern' = true := by
  induction pattern generalizing pattern' path with
  | nil =>
      cases path with
      | nil => cases pattern' with
        | nil => rfl
        | cons q pattern' => cases h'
      | cons segment path => cases h
  | cons p pattern ih =>
      cases path with
      | nil => cases h
      | cons segment path => cases pattern' with
        | nil => cases h'
        | cons q pattern' =>
            simp only [admits, Bool.and_eq_true] at h h'
            rw [meets, meetsPart_of_admitsPart h.1 h'.1, ih h.2 h'.2, Bool.and_self]

/-- A pattern with an open segment captures one that is not empty. -/
theorem exists_captured {pattern : List PathPart} {path : List (List Char)}
    (hany : any ∈ pattern) (h : admits pattern path = true) :
    ∃ segment ≠ [], captured pattern path = some segment := by
  induction pattern generalizing path with
  | nil => cases hany
  | cons p pattern ih =>
      cases path with
      | nil => cases h
      | cons segment path =>
          simp only [admits, Bool.and_eq_true] at h
          cases p with
          | any =>
              refine ⟨segment, ?_, rfl⟩
              rintro rfl
              exact absurd h.1 (by decide)
          | text s => exact ih ((List.mem_cons.mp hany).resolve_left nofun) h.2

end PathPart
