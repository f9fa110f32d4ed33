import Mathlib.Data.List.TakeWhile
import SchemaGraph.Proofs.WrittenDigits
import SchemaGraph.Text.Runs

/-!
# Maximal runs

A text is cut at separators in one way only: its parts are the maximal runs of characters that do
not separate, and all else are gaps of separators. A separator between two texts cuts there, and
more separators beside it, in front of the text or behind it leave no further part. Parts that are
put together with a separator between them are the parts of the whole.
-/

namespace SchemaGraph.Text

variable {separates : Char → Bool}

/-- The parts of a text in order. A part goes on until the next separator or the end, and what is in
front of the first part, between two parts and behind the last one are separators. -/
inductive Parts (separates : Char → Bool) : List Char → List (List Char) → Prop
  | ended {gap : List Char} (outside : ∀ c ∈ gap, separates c = true) : Parts separates gap []
  | part {gap run rest : List Char} {parts : List (List Char)}
      (outside : ∀ c ∈ gap, separates c = true) (nonempty : run ≠ [])
      (inside : ∀ c ∈ run, separates c = false)
      (maximal : ∀ c ∈ rest.head?, separates c = true) (behind : Parts separates rest parts) :
      Parts separates (gap ++ (run ++ rest)) (run :: parts)

/-- A part has characters, and none of them separates. -/
def IsPart (separates : Char → Bool) (part : List Char) : Prop :=
  part ≠ [] ∧ ∀ c ∈ part, separates c = false

/-- The empty text has no runs. -/
@[simp] theorem runs_nil : runs separates [] = [] := by
  rw [runs]

/-- A separator in front adds nothing to the runs. -/
theorem runs_separator {c : Char} (separator : separates c = true) (text : List Char) :
    runs separates (c :: text) = runs separates text := by
  rw [runs, if_pos separator]

/-- Separators in front leave no part. -/
theorem runs_gap {gap : List Char} (outside : ∀ c ∈ gap, separates c = true) (text : List Char) :
    runs separates (gap ++ text) = runs separates text := by
  induction gap with
  | nil => rfl
  | cons c rest ih =>
    rw [List.forall_mem_cons] at outside
    rw [List.cons_append, runs_separator outside.1, ih outside.2]

/-- A run is cut off in front of the next separator. -/
theorem runs_run {run rest : List Char} (isPart : IsPart separates run)
    (maximal : ∀ c ∈ rest.head?, separates c = true) :
    runs separates (run ++ rest) = run :: runs separates rest := by
  obtain ⟨nonempty, inside⟩ := isPart
  cases run with
  | nil => exact absurd rfl nonempty
  | cons c run =>
    rw [List.forall_mem_cons] at inside
    have further : ∀ c ∈ run, (!separates c) = true := by simpa using inside.2
    have stops : Stops (!separates ·) rest := fun c first => by simp [maximal c first]
    rw [List.cons_append, runs, if_neg (by simp [inside.1]), takeWhile_run further stops,
      dropWhile_run further stops]

/-- A text that does not begin with a separator is a run in front of a separator or of nothing. -/
theorem exists_run {c : Char} (inside : separates c = false) (rest : List Char) :
    ∃ run behind, c :: rest = run ++ behind ∧ IsPart separates run ∧
      (∀ d ∈ behind.head?, separates d = true) ∧ behind = rest.dropWhile (!separates ·) := by
  refine ⟨c :: rest.takeWhile (!separates ·), _, ?_, ⟨List.cons_ne_nil _ _, ?_⟩, ?_, rfl⟩
  · rw [List.cons_append, List.takeWhile_append_dropWhile]
  · rw [List.forall_mem_cons]
    exact ⟨inside, fun d listed => by simpa using List.mem_takeWhile_imp listed⟩
  · intro d first
    have stops := List.head?_dropWhile_not (!separates ·) rest
    rw [Option.mem_def.mp first] at stops
    simpa using stops

/-- A part without anything around it is the only one. -/
theorem runs_of_isPart {part : List Char} (isPart : IsPart separates part) :
    runs separates part = [part] := by
  have alone : runs separates (part ++ []) = part :: runs separates [] :=
    runs_run isPart (by simp)
  rwa [List.append_nil, runs_nil] at alone

/-- There is only one way to cut a text into parts, and the runs are it. -/
theorem Parts.eq_runs {text : List Char} {parts : List (List Char)}
    (cut : Parts separates text parts) : parts = runs separates text := by
  induction cut with
  | ended outside =>
    have nothing := runs_gap outside []
    rw [List.append_nil, runs_nil] at nothing
    exact nothing.symm
  | part outside nonempty inside maximal _ ih =>
    rw [runs_gap outside, runs_run ⟨nonempty, inside⟩ maximal, ih]

/-- A separator in front adds no part. -/
theorem Parts.separator {c : Char} (separator : separates c = true) {text : List Char}
    {parts : List (List Char)} (cut : Parts separates text parts) :
    Parts separates (c :: text) parts := by
  have outside {gap : List Char} (all : ∀ d ∈ gap, separates d = true) :
      ∀ d ∈ c :: gap, separates d = true := by
    rw [List.forall_mem_cons]
    exact ⟨separator, all⟩
  cases cut with
  | ended all => exact .ended (outside all)
  | part all nonempty inside maximal behind =>
    exact .part (outside all) nonempty inside maximal behind

/-- The runs cut the text into parts. -/
theorem parts_runs (text : List Char) : Parts separates text (runs separates text) := by
  induction text using runs.induct separates with
  | case1 =>
    rw [runs_nil]
    exact .ended (List.forall_mem_nil _)
  | case2 c rest separator ih => exact runs_separator separator rest ▸ ih.separator separator
  | case3 c rest notSeparator ih =>
    obtain ⟨run, behind, chars, isPart, maximal, isBehind⟩ :=
      exists_run (Bool.eq_false_iff.mpr notSeparator) rest
    have cutBehind : Parts separates behind (runs separates behind) := isBehind ▸ ih
    rw [chars, runs_run isPart maximal]
    exact .part (List.forall_mem_nil _) isPart.1 isPart.2 maximal cutBehind

/-- A text is cut in exactly one way. -/
theorem parts_iff {text : List Char} {parts : List (List Char)} :
    Parts separates text parts ↔ parts = runs separates text := by
  constructor
  · exact Parts.eq_runs
  · rintro rfl
    exact parts_runs text

/-- Each of the parts is one: it is not empty and has no separator in it. -/
theorem Parts.isPart {text part : List Char} {parts : List (List Char)}
    (cut : Parts separates text parts) (listed : part ∈ parts) : IsPart separates part := by
  induction cut with
  | ended => simp at listed
  | part _ nonempty inside _ _ ih =>
    rcases List.mem_cons.mp listed with rfl | behind
    · exact ⟨nonempty, inside⟩
    · exact ih behind

/-- Each maximal run is free of separators and not empty. -/
theorem isPart_of_mem_runs {text part : List Char} (listed : part ∈ runs separates text) :
    IsPart separates part :=
  (parts_runs text).isPart listed

/-- A text has a part exactly if one of its characters does not separate. -/
theorem runs_ne_nil_iff {text : List Char} :
    runs separates text ≠ [] ↔ ∃ c ∈ text, separates c = false := by
  induction text using runs.induct separates with
  | case1 => simp
  | case2 c rest separator ih => simp [runs_separator separator, ih, separator]
  | case3 c rest notSeparator =>
    rw [runs, if_neg notSeparator]
    simp [Bool.eq_false_iff.mpr notSeparator]

/-- A separator cuts a text into two, whatever stands around it. -/
theorem runs_append_separator {c : Char} (separator : separates c = true)
    (front behind : List Char) :
    runs separates (front ++ c :: behind) = runs separates front ++ runs separates behind := by
  induction front using runs.induct separates with
  | case1 => simp [runs_separator separator]
  | case2 d rest separatorInFront ih =>
    rw [List.cons_append, runs_separator separatorInFront, runs_separator separatorInFront, ih]
  | case3 d rest notSeparator ih =>
    obtain ⟨run, left, chars, isPart, maximal, isLeft⟩ :=
      exists_run (Bool.eq_false_iff.mpr notSeparator) rest
    have maximalBefore : ∀ e ∈ (left ++ c :: behind).head?, separates e = true := by
      cases left with
      | nil => simpa using separator
      | cons e _ => simpa using maximal
    rw [← isLeft] at ih
    rw [chars, List.append_assoc, runs_run isPart maximalBefore, runs_run isPart maximal, ih,
      List.cons_append]

/-- A separator at the end leaves no part. -/
theorem runs_concat_separator {c : Char} (separator : separates c = true) (text : List Char) :
    runs separates (text ++ [c]) = runs separates text := by
  rw [runs_append_separator separator, runs_nil, List.append_nil]

/-- Parts with a separator between them are the parts of the whole. -/
theorem runs_intercalate {c : Char} (separator : separates c = true) {parts : List (List Char)}
    (arePartsOf : ∀ part ∈ parts, IsPart separates part) :
    runs separates ([c].intercalate parts) = parts := by
  induction parts with
  | nil => simp
  | cons part rest ih =>
    rw [List.forall_mem_cons] at arePartsOf
    cases rest with
    | nil => simpa using runs_of_isPart arePartsOf.1
    | cons next rest =>
      rw [List.intercalate_cons_cons, List.append_assoc, List.singleton_append,
        runs_append_separator separator, runs_of_isPart arePartsOf.1, ih arePartsOf.2,
        List.singleton_append]

/-- Parts with a separator between them neither begin nor end with a separator. -/
theorem ends_intercalate {c : Char} {parts : List (List Char)}
    (arePartsOf : ∀ part ∈ parts, IsPart separates part) :
    (∀ d ∈ ([c].intercalate parts).head?, separates d = false) ∧
      ∀ d ∈ ([c].intercalate parts).getLast?, separates d = false := by
  induction parts with
  | nil => simp
  | cons part rest ih =>
    rw [List.forall_mem_cons] at arePartsOf
    obtain ⟨⟨nonempty, inside⟩, others⟩ := arePartsOf
    obtain ⟨first, more, rfl⟩ := List.exists_cons_of_ne_nil nonempty
    cases rest with
    | nil =>
      refine ⟨by simpa using inside first List.mem_cons_self, fun d last => inside d ?_⟩
      exact List.mem_of_getLast? (by simpa using last)
    | cons next rest =>
      obtain ⟨_, ends⟩ := ih others
      have written : [c].intercalate (next :: rest) ≠ [] := by
        cases rest <;> simp [List.intercalate_cons_cons, others next List.mem_cons_self |>.1]
      have lastOfRest : ([c].intercalate ((first :: more) :: next :: rest)).getLast? =
          ([c].intercalate (next :: rest)).getLast? := by
        rw [List.intercalate_cons_cons, List.getLast?_append, List.getLast?_eq_some_getLast written,
          Option.some_or]
      refine ⟨by simpa [List.intercalate_cons_cons] using inside first List.mem_cons_self, ?_⟩
      rw [lastOfRest]
      exact ends

end SchemaGraph.Text
